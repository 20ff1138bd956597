import LayerAxes.Json.Basic

/-!
# Reading JSON

A text is one value with blanks around its parts.  Inside strings a tab may
stand for itself; every other control character has to be escaped.
-/

namespace LayerAxes
namespace Json

/-!
# Strings
-/

def hexDigit? (c : Char) : Option Nat :=
  if '0' ≤ c ∧ c ≤ '9' then some (c.toNat - '0'.toNat)
  else if 'a' ≤ c ∧ c ≤ 'f' then some (c.toNat - 'a'.toNat + 10)
  else if 'A' ≤ c ∧ c ≤ 'F' then some (c.toNat - 'A'.toNat + 10)
  else none

def hexUnit? (a b c d : Char) : Option Nat := do
  let a <- hexDigit? a
  let b <- hexDigit? b
  let c <- hexDigit? c
  let d <- hexDigit? d
  return ((a * 16 + b) * 16 + c) * 16 + d

def isHighSurrogate (unit : Nat) : Bool :=
  0xD800 ≤ unit && unit < 0xDC00

def isLowSurrogate (unit : Nat) : Bool :=
  0xDC00 ≤ unit && unit < 0xE000

def joinSurrogates (high low : Nat) : Char :=
  Char.ofNat (0x10000 + (high - 0xD800) * 0x400 + (low - 0xDC00))

def escaped? (c : Char) : Option Char :=
  match c with
  | '"' => some '"'
  | '\\' => some '\\'
  | '/' => some '/'
  | 'b' => some '\x08'
  | 'f' => some '\x0c'
  | 'n' => some '\n'
  | 'r' => some '\r'
  | 't' => some '\t'
  | _ => none

def isPlain (c : Char) : Bool :=
  c = '\t' || 32 ≤ c.toNat

def readChar (c : Char) (found : Option (List Char × List Char)) :
    Option (List Char × List Char) :=
  found.map fun parts => (c :: parts.1, parts.2)

/--
The characters up to the closing quote, and the text after it.  Between the two
escapes of a surrogate pair, `high` is its first half.
-/
def readChars : Option Nat -> List Char -> Option (List Char × List Char)
  | none, '"' :: rest => some ([], rest)
  | high, '\\' :: 'u' :: a :: b :: c :: d :: rest =>
      match hexUnit? a b c d, high with
      | some unit, none =>
          if isHighSurrogate unit then readChars (some unit) rest
          else if isLowSurrogate unit then none
          else readChar (Char.ofNat unit) (readChars none rest)
      | some unit, some half =>
          if isLowSurrogate unit then readChar (joinSurrogates half unit) (readChars none rest)
          else none
      | none, _ => none
  | none, '\\' :: c :: rest =>
      match escaped? c with
      | some plain => readChar plain (readChars none rest)
      | none => none
  | none, c :: rest => if isPlain c && c != '\\' then readChar c (readChars none rest) else none
  | _, _ => none

def readString (cs : List Char) : Option (String × List Char) :=
  (readChars none cs).map fun parts => (String.ofList parts.1, parts.2)

/-!
# Numbers
-/

/-- The digits before the point: a zero, or digits that do not open with one. -/
def isWholePart : List Char -> Bool
  | [] => false
  | ['0'] => true
  | c :: cs => c != '0' && (c :: cs).all Char.isDigit

def isExponent : List Char -> Bool
  | '-' :: cs => !cs.isEmpty && cs.all Char.isDigit
  | '+' :: cs => !cs.isEmpty && cs.all Char.isDigit
  | cs => !cs.isEmpty && cs.all Char.isDigit

/-- The text is a part before an exponent, or all of a number without exponent. -/
def isMantissa (cs : List Char) : Bool :=
  let unsigned :=
    match cs with
    | '-' :: rest => rest
    | _ => cs
  match unsigned.span (· != '.') with
  | (whole, []) => isWholePart whole
  | (whole, _ :: fraction) =>
      isWholePart whole && !fraction.isEmpty && fraction.all Char.isDigit

def isNumber (cs : List Char) : Bool :=
  match cs.span fun c => c != 'e' && c != 'E' with
  | (mantissa, []) => isMantissa mantissa
  | (mantissa, _ :: exponent) => isMantissa mantissa && isExponent exponent

def isNumberChar (c : Char) : Bool :=
  c.isDigit || c = '-' || c = '+' || c = '.' || c = 'e' || c = 'E'

def readNumber (cs : List Char) : Option (Json × List Char) :=
  let literal := cs.takeWhile isNumberChar
  if isNumber literal then
    some (number (String.ofList literal), cs.dropWhile isNumberChar)
  else none

/-!
# Values
-/

def isSpace (c : Char) : Bool :=
  c = ' ' || c = '\t' || c = '\n' || c = '\r'

def skipSpace (cs : List Char) : List Char :=
  cs.dropWhile isSpace

/-- A value that is neither a string nor a number nor put together from others. -/
def readWord (cs : List Char) : Option (Json × List Char) :=
  (["null".toList, "true".toList, "false".toList].zip [null, bool true, bool false]).findSome?
    fun word => (word.1.isPrefixOf? cs).map fun rest => (word.2, rest)

mutual

/--
Read a value and return the text after it.  Every step either consumes a
character or is followed by one that does, so twice the length of the text is
fuel enough.
-/
def readValue : Nat -> List Char -> Option (Json × List Char)
  | 0, _ => none
  | fuel + 1, cs =>
      match skipSpace cs with
      | '"' :: rest => (readString rest).map fun parts => (string parts.1, parts.2)
      | '[' :: rest =>
          match skipSpace rest with
          | ']' :: rest => some (array [], rest)
          | rest => (readItems fuel rest).map fun parts => (array parts.1, parts.2)
      | '\x7b' :: rest =>
          match skipSpace rest with
          | '\x7d' :: rest => some (object [], rest)
          | rest => (readMembers fuel rest).map fun parts => (object parts.1, parts.2)
      | rest => (readWord rest).or (readNumber rest)

def readItems : Nat -> List Char -> Option (List Json × List Char)
  | 0, _ => none
  | fuel + 1, cs => do
      let (item, rest) <- readValue fuel cs
      match skipSpace rest with
      | ']' :: rest => return ([item], rest)
      | ',' :: rest =>
          let (items, rest) <- readItems fuel rest
          return (item :: items, rest)
      | _ => none

def readMembers : Nat -> List Char -> Option (List (String × Json) × List Char)
  | 0, _ => none
  | fuel + 1, cs =>
      match skipSpace cs with
      | '"' :: rest => do
          let (name, rest) <- readString rest
          match skipSpace rest with
          | ':' :: rest =>
              let (value, rest) <- readValue fuel rest
              match skipSpace rest with
              | '\x7d' :: rest => return ([(name, value)], rest)
              | ',' :: rest =>
                  let (members, rest) <- readMembers fuel rest
                  return ((name, value) :: members, rest)
              | _ => none
          | _ => none
      | _ => none

end

def read? (cs : List Char) : Option Json :=
  match readValue (2 * cs.length + 1) cs with
  | some (value, rest) => if (skipSpace rest).isEmpty then some value else none
  | none => none

def parse? (s : String) : Option Json :=
  read? s.toList

end Json
end LayerAxes
