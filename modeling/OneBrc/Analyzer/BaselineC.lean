import OneBrc.Analyzer.BaselineGo
import OneBrc.Lib.ProbeTable

/-! The baseline in C: lines in a buffer of fixed size, numbers in the types of C, and a growing
hash table of the keys. -/
namespace OneBrc.Analyzer.BaselineC
open Lib OpenAddressing ProbeTable StableSort

structure Entry where
  key : Bytes
  minLen : Int32
  maxLen : Int32
  totalLen : Int64
  messages : Int64
  stamps : Int64
  used : Bool

def Entry.isFree (e : Entry) : Bool := !e.used

/-- A slot that `calloc` returns. -/
def Entry.zero : Entry := ⟨[], 0, 0, 0, 0, 0, false⟩

structure Map where
  entries : List Entry
  count : ℕ

def hashString (s : Bytes) : UInt64 :=
  s.foldl (fun h b => (h ^^^ b.toUInt64) * 1099511628211) 1469598103934665603

/-- `endless` stands for a search that does not end. -/
inductive AnalyzeError where
  | header
  | line (lineNumber : ℕ)
  | outOfRange
  | endless

/-- `strtol` in base 10; a number out of range becomes the nearest `long`. -/
def strtol (text : Bytes) : ℤ :=
  let (negative, rest) := Decimal.sign (text.dropWhile Decimal.isSpace)
  let value := Decimal.value (rest.takeWhile Decimal.isDigit)
  max (-2 ^ 63) (min (2 ^ 63 - 1) (if negative then -value else value))

/-- `atoi` is `strtol` with the result cut to an `int`. -/
def atoi (text : Bytes) : Int32 := Int32.ofInt (strtol text)

def atoll (text : Bytes) : Int64 := Int64.ofInt (strtol text)

def makeKey (unixTimestamp channelPath : Bytes) : Option Bytes := do
  let month ← monthLabelFromUnixTimestamp (atoll unixTimestamp)
  some (channelPath ++ comma :: month)

def mapInit : Map := ⟨List.replicate 32768 .zero, 0⟩

def mapRehash (map : Map) : Option Map := do
  let entries ← (live Entry.isFree map.entries).foldlM
    (place Entry.isFree fun e => (hashString e.key).toNat)
    (List.replicate (map.entries.length * 2) .zero)
  some ⟨entries, (live Entry.isFree map.entries).length⟩

/-- Seven tenths of the slots are used at most. -/
def reserve (map : Map) : Option Map :=
  if map.entries.length * 7 < (map.count + 1) * 10 then mapRehash map else some map

/-- The table, the slot of the key, and whether the key is new. -/
def mapGetOrInsert (map : Map) (key : Bytes) (messageLength stampCount : Int32) :
    Option (Map × ℕ × Bool) := do
  let map ← reserve map
  let pos ← find Entry.isFree (fun e => e.key = key) map.entries (hashString key).toNat
  let entry ← map.entries[pos]?
  if entry.used then some (map, pos, false)
  else some (⟨map.entries.set pos ⟨key, messageLength, messageLength, messageLength.toInt64, 1,
    stampCount.toInt64, true⟩, map.count + 1⟩, pos, true)

/-- An entry with one more row. -/
def Entry.add (messageLength stampCount : Int32) (e : Entry) : Entry :=
  { e with
    minLen := if messageLength < e.minLen then messageLength else e.minLen
    maxLen := if messageLength > e.maxLen then messageLength else e.maxLen
    totalLen := e.totalLen + messageLength.toInt64
    messages := e.messages + 1
    stamps := e.stamps + stampCount.toInt64 }

/-- The fields of a line, which ends at LF, CR or NUL. -/
def splitLine (field : Bytes) : Bytes → List Bytes
  | [] => [field]
  | b :: line =>
      if b = comma then field :: splitLine [] line
      else if b = 0 ∨ b = newline ∨ b = carriageReturn then [field]
      else splitLine (field ++ [b]) line

/-- What `fgets` reads when there is room for `n` bytes, and what is left. -/
def fgets : ℕ → Bytes → Bytes × Bytes
  | 0, text => ([], text)
  | _, [] => ([], [])
  | n + 1, b :: text =>
      if b = newline then ([b], text) else ((b :: (fgets n text).1), (fgets n text).2)

/-- What the calls of `fgets` read until the end of the file. -/
def readLines (n : ℕ) : ℕ → Bytes → List Bytes
  | 0, _ => []
  | _, [] => []
  | fuel + 1, text => (fgets n text).1 :: readLines n fuel (fgets n text).2

/-- A line counted under its key. -/
def analyzeLine (lineNumber : ℕ) (map : Map) (line : Bytes) : Except AnalyzeError Map :=
  if line.head? = some newline ∨ line.head? = some carriageReturn ∨ line.head? = some 0 then .ok map
  else match splitLine [] line with
    | [unixTimestamp, channelPath, messageLength, stampCount] =>
        match makeKey unixTimestamp channelPath with
        | none => .error .outOfRange
        | some key =>
            match mapGetOrInsert map key (atoi messageLength) (atoi stampCount) with
            | none => .error .endless
            | some (map, _, true) => .ok map
            | some (map, pos, false) => .ok { map with
                entries := map.entries.modify pos (.add (atoi messageLength) (atoi stampCount)) }
    | _ => .error (.line lineNumber)

def analyzeLines (lineNumber : ℕ) (map : Map) : List Bytes → Except AnalyzeError Map
  | [] => .ok map
  | line :: lines =>
      match analyzeLine lineNumber map line with
      | .error e => .error e
      | .ok map => analyzeLines (lineNumber + 1) map lines

/-- The buffer has 4096 bytes. -/
def analyze (text : Bytes) : Except AnalyzeError Map :=
  match readLines 4095 text.length text with
  | [] => .error .header
  | header :: lines =>
      if (splitLine [] header).length ≠ 4 then .error .header else analyzeLines 2 mapInit lines

def entryLine (mean : ℤ → ℤ → Bytes) (e : Entry) : Bytes :=
  e.key ++ equals :: (Decimal.encodeInt e.minLen.toInt ++ slash ::
    (mean e.totalLen.toInt e.messages.toInt ++ slash :: (Decimal.encodeInt e.maxLen.toInt ++
      slash :: (Decimal.encodeInt e.messages.toInt ++ slash ::
        (Decimal.encodeInt e.stamps.toInt ++ [newline])))))

/-- The lines in the order of the keys. -/
def writeResult (mean : ℤ → ℤ → Bytes) (map : Map) : List Bytes :=
  (sliceStable (fun a b => ByteOrder.less a.key b.key) (live Entry.isFree map.entries)).map
    (entryLine mean)

/-- The lines of the output; none after an error. -/
def output (mean : ℤ → ℤ → Bytes) (text : Bytes) : Option (List Bytes) :=
  match analyze text with
  | .ok map => some (writeResult mean map)
  | .error _ => none

end OneBrc.Analyzer.BaselineC
