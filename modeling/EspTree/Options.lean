import EspTree.Message

/-!
# Texts of the bridge

The functions on texts that the bridge reads commands and `entity_options` with, a list of `key=value` parts
between semicolons.  A text is a `std::string`; `long` has 32 bits.

`strtol` and `strtoul` stop at the first byte that does not belong to the number and saturate
outside of their range, and `atoi` is `strtol` in a narrower type.  They skip white space first, so
that `optionU32` accepts more than it prints.  A part without `=` is dropped by `parseOptionsMap`,
and of two parts with one key the later one counts, as in the map of the source.
-/

namespace EspTree

open Wire

/-- A literal of the source. -/
def ascii (s : String) : Bytes := s.toList.map fun c => UInt8.ofNat c.toNat

def parseOn (payload : Bytes) : Bool :=
  payload == ascii "ON" || payload == ascii "on" || payload == ascii "1" || payload == ascii "true"

/-- The loop of `split_string`, with `current` in reverse. -/
def splitLoop (sep : UInt8) (current : Bytes) : Bytes → List Bytes
  | [] => [current.reverse]
  | ch :: input =>
    if ch = sep then current.reverse :: splitLoop sep [] input else splitLoop sep (ch :: current) input

def splitString (input : Bytes) (sep : UInt8) : List Bytes := splitLoop sep [] input

/-- `parse_options_map`, the latest assignment first. -/
def parseOptionsMap (input : Bytes) : List (Bytes × Bytes) :=
  (splitString input 0x3B).foldl (fun options part =>
    if 0x3D ∈ part then (part.takeWhile (· != 0x3D), (part.dropWhile (· != 0x3D)).tail) :: options
    else options) []

def optionList (options : List (Bytes × Bytes)) (key : Bytes) : List Bytes :=
  match options.lookup key with
  | none => []
  | some value => if value.isEmpty then [] else splitString value 0x7C

def isSpace (ch : UInt8) : Bool := ch == 0x20 || (0x09 ≤ ch && ch ≤ 0x0D)

def isDigit (ch : UInt8) : Bool := 0x30 ≤ ch && ch ≤ 0x39

/-- The numeral that `strtol` and `strtoul` find: is it negative, and what is its magnitude? -/
def scanNumeral (text : Bytes) : Option (Bool × Nat) :=
  let text := text.dropWhile isSpace
  let negative := text.head? == some 0x2D
  let digits := (if negative || text.head? == some 0x2B then text.tail else text).takeWhile isDigit
  if digits.isEmpty then none
  else some (negative, digits.foldl (fun n ch => 10 * n + (ch.toNat - 0x30)) 0)

/-- `strtol`, or nothing where `end` stays at the beginning. -/
def strtol (text : Bytes) : Option Int :=
  (scanNumeral text).map fun (negative, n) =>
    max (-2 ^ 31) (min (2 ^ 31 - 1) (if negative then -n else n))

def strtoul (text : Bytes) : UInt32 :=
  match scanNumeral text with
  | none => 0
  | some (negative, n) =>
    if n ≥ 2 ^ 32 then UInt32.ofNat (2 ^ 32 - 1) else if negative then -UInt32.ofNat n else UInt32.ofNat n

def atoi (text : Bytes) : Int := (strtol text).getD 0

def optionU32 (options : List (Bytes × Bytes)) (key : Bytes) (fallback : UInt32) : UInt32 :=
  match options.lookup key with
  | none => fallback
  | some value => strtoul value

example : optionU32 (parseOptionsMap (ascii "direction=1;speed_count=3")) (ascii "speed_count") 0 = 3 := by
  decide

end EspTree
