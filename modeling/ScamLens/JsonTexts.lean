import Mathlib.Algebra.Group.Nat.Defs
import Mathlib.Data.Nat.Log
import ScamLens.PythonText
import ScamLens.Typosquat

/-!
# JSON texts as Python reads them

The values of `json.loads`, and what `int`, `str` and a truth test make of
them. Every JSON value may stand at the top, and the constants `NaN` and
`Infinity` are numbers. A text that is no JSON is one kind of error; a number
with too many digits and a nesting that is too deep are another one. A code
point of a string is never half of a surrogate pair.
-/

namespace ScamLens.JsonTexts

open PythonText
open Typosquat (dictSet)

/-- A floating-point number: the mantissa times a power of two. -/
inductive PyFloat where
  | nan
  | infinite (negative : Bool)
  | finite (negative : Bool) (mantissa : ℕ) (exponent : ℤ)
  deriving DecidableEq

/-- A value of `json.loads`. Every key of an object occurs once. -/
inductive JsonValue where
  | null
  | bool (b : Bool)
  | int (n : ℤ)
  | float (x : PyFloat)
  | string (s : Text)
  | array (items : List JsonValue)
  | object (fields : List (Text×JsonValue))

/-- The exceptions of `json.loads`. -/
inductive LoadsError where
  /-- `json.JSONDecodeError`: the text is no JSON. -/
  | decode
  /-- Every other exception, such as `RecursionError`. -/
  | raised
  deriving DecidableEq

section Numbers

/-- `sys.get_int_max_str_digits()` -/
def maxDigits : ℕ := 4300

/-- The code points of the decimal digit zero. -/
def decimalZeros : List ℕ :=
  [0x30,0x660,0x6f0,0x7c0,0x966,0x9e6,0xa66,0xae6,0xb66,0xbe6,0xc66,0xce6,0xd66,0xde6,0xe50,
    0xed0,0xf20,0x1040,0x1090,0x17e0,0x1810,0x1946,0x19d0,0x1a80,0x1a90,0x1b50,0x1bb0,0x1c40,
    0x1c50,0xa620,0xa8d0,0xa900,0xa9d0,0xa9f0,0xaa50,0xabf0,0xff10,0x104a0,0x10d30,0x11066,
    0x110f0,0x11136,0x111d0,0x112f0,0x11450,0x114d0,0x11650,0x116c0,0x11730,0x118e0,0x11950,
    0x11c50,0x11d50,0x11da0,0x16a60,0x16b50,0x1d7ce,0x1d7d8,0x1d7e2,0x1d7ec,0x1d7f6,0x1e140,
    0x1e2f0,0x1e950,0x1fbf0]

/-- The value of a decimal digit. -/
def digitValue (c : Char) : Option ℕ :=
  (decimalZeros.find? fun first => first ≤ c.toNat && c.toNat<first+10).map (c.toNat-·)

/-- The value of digits, the first one of the highest weight. -/
def ofDigits (digits : List ℕ) : ℕ := digits.foldl (fun n digit => 10*n+digit) 0

/-- Digits with single underscores between them. -/
def digitGroups : Text → Option (List ℕ)
  | [] => none
  | [c] => (digitValue c).map ([·])
  | c:: '_'::s => (digitValue c).bind fun digit => (digitGroups s).map (digit::·)
  | c::s => (digitValue c).bind fun digit => (digitGroups s).map (digit::·)

/-- `int(s)` of a string, none for a `ValueError`. -/
def intOfText (s : Text) : Option ℤ :=
  let s := strip s
  let negative := s.head? == some '-'
  let digits := if negative || s.head? == some '+' then s.tail else s
  (digitGroups digits).bind fun digits =>
    if maxDigits<digits.length then none
    else some (if negative then -(ofDigits digits : ℤ) else ofDigits digits)

/-- The exception of `int(x)` of a float. -/
inductive IntError where
  | valueError
  | overflowError
  | typeError
  deriving DecidableEq

/-- `int(x)` of a float: the digits after the point are dropped. -/
def PyFloat.toInt : PyFloat → Except IntError ℤ
  | .nan => .error .valueError
  | .infinite _ => .error .overflowError
  | .finite negative mantissa exponent =>
    let n := if 0 ≤ exponent then mantissa*2^exponent.toNat else mantissa/2^(-exponent).toNat
    .ok (if negative then -(n : ℤ) else n)

/-- `int(value)` -/
def JsonValue.toInt : JsonValue → Except IntError ℤ
  | .null => .error .typeError
  | .bool b => .ok (if b then 1 else 0)
  | .int n => .ok n
  | .float x => x.toInt
  | .string s => (intOfText s).elim (.error .valueError) .ok
  | .array _ => .error .typeError
  | .object _ => .error .typeError

/-- The quotient of two naturals, rounded to the nearest one and to the even
one of two. -/
def roundDiv (n m : ℕ) : ℕ :=
  let q := n/m
  let r := n%m
  if m<2*r || (2*r == m && q%2 == 1) then q+1 else q

/-- `float(s)` of the decimal with the given digits and power of ten: the
double next to it. -/
def PyFloat.ofDecimal (negative : Bool) (digits : ℕ) (power : ℤ) : PyFloat :=
  if digits=0 then .finite negative 0 0
  else
    let n := digits*10^power.toNat
    let m := 10^(-power).toNat
    let scaled (exponent : ℤ) : ℕ := roundDiv (n*2^(-exponent).toNat) (m*2^exponent.toNat)
    let guess : ℤ := (Nat.log2 n : ℤ)-Nat.log2 m-52
    let tight :=
      if n*2^(Nat.log2 m-Nat.log2 n) < m*2^(Nat.log2 n-Nat.log2 m) then guess-1 else guess
    let exponent := max (-1074) tight
    let mantissa := scaled exponent
    if 971<exponent || (exponent == 971 && mantissa == 2^53) then .infinite negative
    else .finite negative mantissa exponent

end Numbers

section Decoder

/-- Text after the white space of JSON. -/
def skipSpace (s : Text) : Text := s.dropWhile " \t\n\r".toList.contains

/-- The hexadecimal value of one code point. -/
def hexValue (c : Char) : Option ℕ :=
  let n := c.toNat
  if 48 ≤ n && n≤57 then some (n-48)
  else if 65 ≤ n && n≤70 then some (n-55)
  else if 97 ≤ n && n≤102 then some (n-87)
  else none

/-- The value of four hexadecimal digits. -/
def hex4 (a b c d : Char) : Option ℕ := do
  let a ← hexValue a
  let b ← hexValue b
  let c ← hexValue c
  let d ← hexValue d
  return ((a*16+b)*16+c)*16+d

/-- What a short escape stands for. -/
def shortEscape (c : Char) : Option ℕ :=
  if c = '\x22' then some 34
  else if c = '\\' then some 92
  else if c = '/' then some 47
  else if c = 'b' then some 8
  else if c = 'f' then some 12
  else if c = 'n' then some 10
  else if c = 'r' then some 13
  else if c = 't' then some 9
  else none

/-- The code units of a string up to its closing quote, and the text behind. -/
def stringUnits : Text → Except LoadsError (List ℕ×Text)
  | [] => .error .decode
  | '\\':: 'u'::a::b::c::d::s =>
    (hex4 a b c d).elim (.error .decode) fun unit =>
      (stringUnits s).map fun out => (unit::out.1,out.2)
  | '\\'::c::s =>
    (shortEscape c).elim (.error .decode) fun unit =>
      (stringUnits s).map fun out => (unit::out.1,out.2)
  | c::s =>
    if c = '\x22' then .ok ([],s)
    else if c.toNat<32 then .error .decode
    else (stringUnits s).map fun out => (c.toNat::out.1,out.2)

/-- Code units as code points: the two halves of a pair make one. Half a pair
alone becomes the replacement character. -/
def joinSurrogates : List ℕ → Text
  | [] => []
  | [unit] => [if unit.isValidChar then Char.ofNat unit else '\uFFFD']
  | high::low::units =>
    if 0xD800 ≤ high && high≤0xDBFF && 0xDC00 ≤ low && low≤0xDFFF then
      Char.ofNat (0x10000+(high-0xD800)*0x400+(low-0xDC00))::joinSurrogates units
    else (if high.isValidChar then Char.ofNat high else '\uFFFD')::joinSurrogates (low::units)

/-- A string behind its opening quote. -/
def scanString (s : Text) : Except LoadsError (Text×Text) :=
  (stringUnits s).map fun out => (joinSurrogates out.1,out.2)

/-- The leading digits of a text, and what is behind them. -/
def spanDigits (s : Text) : Text×Text := s.span Char.isDigit

/-- The fraction of a number, if it has one. -/
def scanFraction : Text → Option (Text×Text)
  | '.'::s =>
    let out := spanDigits s
    if out.1=[] then none else some out
  | _ => none

/-- The exponent of a number, if it has one. -/
def scanExponent : Text → Option (ℤ×Text)
  | c::s =>
    if c = 'e' || c = 'E' then
      let negative := s.head? == some '-'
      let out := spanDigits (if negative || s.head? == some '+' then s.tail else s)
      let n := ofDigits (out.1.filterMap digitValue)
      if out.1=[] then none else some (if negative then -(n : ℤ) else n,out.2)
    else none
  | [] => none

/-- A number behind its sign. -/
def scanNumber (negative : Bool) (s : Text) : Except LoadsError (JsonValue×Text) :=
  let whole := if s.head? = some '0' then ['0'] else (spanDigits s).1
  let rest := s.drop whole.length
  let fraction := scanFraction rest
  let behind := fraction.elim rest Prod.snd
  let power := scanExponent behind
  if whole=[] then .error .decode
  else if fraction.isNone && power.isNone then
    if maxDigits<whole.length then .error .raised
    else
      let n := ofDigits (whole.filterMap digitValue)
      .ok (.int (if negative then -(n : ℤ) else n),rest)
  else
    let decimals := fraction.elim [] Prod.fst
    .ok (.float (.ofDecimal negative (ofDigits ((whole++decimals).filterMap digitValue))
        (power.elim 0 Prod.fst-decimals.length)),
      power.elim behind Prod.snd)

/-- The numbers and constants, `NaN` and the infinite ones among them. -/
def scanAtom (s : Text) : Except LoadsError (JsonValue×Text) :=
  if "null".toList.isPrefixOf s then .ok (.null,s.drop 4)
  else if "true".toList.isPrefixOf s then .ok (.bool true,s.drop 4)
  else if "false".toList.isPrefixOf s then .ok (.bool false,s.drop 5)
  else if "NaN".toList.isPrefixOf s then .ok (.float .nan,s.drop 3)
  else if "Infinity".toList.isPrefixOf s then .ok (.float (.infinite false),s.drop 8)
  else if "-Infinity".toList.isPrefixOf s then .ok (.float (.infinite true),s.drop 9)
  else if s.head? = some '-' then scanNumber true s.tail
  else scanNumber false s

section Containers

variable (scan : Text → Except LoadsError (JsonValue×Text))

/-- The items of an array from one of them on. Every item takes a code point,
so a round for each one is enough. -/
def scanItems : ℕ → Text → Except LoadsError (List JsonValue×Text)
  | 0,_ => .error .decode
  | fuel+1,s => do
    let (item,s) ← scan s
    match skipSpace s with
    | ']'::s => return ([item],s)
    | ','::s =>
      let (items,s) ← scanItems fuel (skipSpace s)
      return (item::items,s)
    | _ => throw .decode

/-- The fields of an object from one of them on, added to those before. -/
def scanFields : ℕ → List (Text×JsonValue) → Text →
    Except LoadsError (List (Text×JsonValue)×Text)
  | 0,_,_ => .error .decode
  | fuel+1,fields,s => do
    let (key,s) ← if s.head? = some '\x22' then scanString s.tail else throw .decode
    let s := skipSpace s
    let (value,s) ← if s.head? = some ':' then scan (skipSpace s.tail) else throw .decode
    let fields := dictSet key value fields
    match skipSpace s with
    | '\x7d'::s => return (fields,s)
    | ','::s => scanFields fuel fields (skipSpace s)
    | _ => throw .decode

end Containers

/-- One value, given how deep arrays and objects may still be nested. -/
def scanValue (depth : ℕ) (s : Text) : Except LoadsError (JsonValue×Text) :=
  match s with
  | '\x22'::s => (scanString s).map fun out => (.string out.1,out.2)
  | '['::s =>
    match depth with
    | 0 => .error .raised
    | depth+1 =>
      match skipSpace s with
      | ']'::s => .ok (.array [],s)
      | s => (scanItems (scanValue depth) s.length s).map fun out => (.array out.1,out.2)
  | '\x7b'::s =>
    match depth with
    | 0 => .error .raised
    | depth+1 =>
      match skipSpace s with
      | '\x7d'::s => .ok (.object [],s)
      | s => (scanFields (scanValue depth) s.length [] s).map fun out => (.object out.1,out.2)
  | s => scanAtom s

/-- `json.loads`, given how deep a text may be nested. -/
def loads (depth : ℕ) (s : Text) : Except LoadsError JsonValue :=
  if s.head? = some '\uFEFF' then .error .decode
  else do
    let (value,rest) ← scanValue depth (skipSpace s)
    if skipSpace rest=[] then return value else throw .decode

end Decoder

section Values

/-- `bool(value)` -/
def JsonValue.truthy : JsonValue → Bool
  | .null => false
  | .bool b => b
  | .int n => n != 0
  | .float .nan => true
  | .float (.infinite _) => true
  | .float (.finite _ mantissa _) => mantissa != 0
  | .string s => !s.isEmpty
  | .array items => !items.isEmpty
  | .object fields => !fields.isEmpty

/-- The values a loop may go through. -/
def JsonValue.iterate : JsonValue → Option (List JsonValue)
  | .string s => some (s.map fun c => .string [c])
  | .array items => some items
  | .object fields => some (fields.map fun field => .string field.1)
  | _ => none

/-- What `str` writes for a float, and the code points it writes as they are. -/
structure PythonRepr where
  /-- `repr` of a float: the shortest decimal that is read back as it. -/
  float : PyFloat → Text
  /-- `str.isprintable` -/
  isPrintable : Char → Bool

variable (r : PythonRepr)

/-- The last hexadecimal digits of a code point. -/
def hexDigits (digits n : ℕ) : Text :=
  (List.range digits).reverse.map fun i => Nat.digitChar (n/16^i%16)

/-- One code point between quotes. -/
def reprChar (quote c : Char) : Text :=
  let n := c.toNat
  if c = quote || c = '\\' then ['\\',c]
  else if c = '\n' then "\\n".toList
  else if c = '\r' then "\\r".toList
  else if c = '\t' then "\\t".toList
  else if r.isPrintable c then [c]
  else if n<0x100 then "\\x".toList++hexDigits 2 n
  else if n<0x10000 then "\\u".toList++hexDigits 4 n
  else "\\U".toList++hexDigits 8 n

/-- `repr` of a string. -/
def reprText (s : Text) : Text :=
  let quote := if s.contains '\x27' && !s.contains '\x22' then '\x22' else '\x27'
  quote::s.flatMap (reprChar r quote)++[quote]

mutual

/-- `repr` of a value. -/
def JsonValue.repr : JsonValue → Text
  | .null => "None".toList
  | .bool b => if b then "True".toList else "False".toList
  | .int n => ofInt n
  | .float x => r.float x
  | .string s => reprText r s
  | .array items => '['::join ", ".toList (reprItems items)++[']']
  | .object fields => '\x7b'::join ", ".toList (reprFields fields)++['\x7d']

/-- `repr` of every item. -/
def reprItems : List JsonValue → List Text
  | [] => []
  | item::items => item.repr::reprItems items

/-- `repr` of every field. -/
def reprFields : List (Text×JsonValue) → List Text
  | [] => []
  | (key,value)::fields => (reprText r key++": ".toList++value.repr)::reprFields fields

end

/-- `str(value)` -/
def JsonValue.str : JsonValue → Text
  | .string s => s
  | value => value.repr r

end Values

end ScamLens.JsonTexts
