import ProjectHub.Sqlite.Clock
import ProjectHub.Sqlite.Format
import ProjectHub.Sqlite.Pattern
import ProjectHub.Sql.Quote
import ProjectHub.Text.Hex

/-!
# Functions

The functions that expressions may call, by name and number of arguments, and
what each gives, functions of JSON texts aside. Functions of many rows and of
windows are not among them. Those that search or load something fail wherever
they are called.
-/

namespace ProjectHub.Sqlite.Function

open Decimal (Double)

/-- The functions with the least and the greatest number of their arguments. -/
def known : List (String × Nat × Option Nat) :=
  [("abs", 1, some 1), ("bm25", 0, none), ("changes", 0, some 0), ("char", 0, none),
   ("coalesce", 2, none), ("concat", 1, none), ("concat_ws", 2, none), ("date", 0, none),
   ("datetime", 0, none), ("format", 0, none), ("fts3_tokenizer", 1, some 2),
   ("fts5", 1, some 1), ("fts5_source_id", 0, some 0), ("glob", 2, some 2), ("hex", 1, some 1),
   ("highlight", 0, none), ("ifnull", 2, some 2), ("iif", 3, some 3), ("instr", 2, some 2),
   ("json", 1, some 1), ("json_array", 0, none), ("json_array_length", 1, some 2),
   ("json_error_position", 1, some 1), ("json_extract", 0, none), ("json_insert", 0, none),
   ("json_object", 0, none), ("json_patch", 2, some 2), ("json_pretty", 1, some 2),
   ("json_quote", 1, some 1), ("json_remove", 0, none), ("json_replace", 0, none),
   ("json_set", 0, none), ("json_type", 1, some 2), ("json_valid", 1, some 2),
   ("jsonb", 1, some 1), ("jsonb_array", 0, none), ("jsonb_extract", 0, none),
   ("jsonb_insert", 0, none), ("jsonb_object", 0, none), ("jsonb_patch", 2, some 2),
   ("jsonb_remove", 0, none), ("jsonb_replace", 0, none), ("jsonb_set", 0, none),
   ("julianday", 0, none), ("last_insert_rowid", 0, some 0), ("length", 1, some 1),
   ("like", 2, some 3), ("likelihood", 2, some 2), ("likely", 1, some 1),
   ("load_extension", 1, some 2), ("lower", 1, some 1), ("ltrim", 1, some 2),
   ("match", 2, some 2), ("matchinfo", 1, some 2), ("max", 2, none), ("min", 2, none),
   ("nullif", 2, some 2), ("octet_length", 1, some 1), ("offsets", 1, some 1),
   ("optimize", 1, some 1), ("printf", 0, none), ("quote", 1, some 1), ("random", 0, some 0),
   ("randomblob", 1, some 1), ("replace", 3, some 3), ("round", 1, some 2),
   ("rtreecheck", 0, none), ("rtreedepth", 1, some 1), ("rtreenode", 2, some 2),
   ("rtrim", 1, some 2), ("sign", 1, some 1), ("snippet", 0, none), ("soundex", 1, some 1),
   ("sqlite_compileoption_get", 1, some 1), ("sqlite_compileoption_used", 1, some 1),
   ("sqlite_log", 2, some 2), ("sqlite_source_id", 0, some 0), ("sqlite_version", 0, some 0),
   ("strftime", 0, none), ("substr", 2, some 3), ("substring", 2, some 3),
   ("subtype", 1, some 1), ("time", 0, none), ("timediff", 2, some 2),
   ("total_changes", 0, some 0), ("trim", 1, some 2), ("typeof", 1, some 1),
   ("unhex", 1, some 2), ("unicode", 1, some 1), ("unixepoch", 0, none),
   ("unlikely", 1, some 1), ("upper", 1, some 1), ("zeroblob", 1, some 1)]

/-- Whether there is a function of a name that takes a number of arguments. -/
def isKnown (name : String) (count : Nat) : Bool :=
  match known.lookup (Text.lowerAscii name) with
  | some (least, most) => least ≤ count && most.all fun most => count ≤ most
  | none => false

/-- Functions whose value is not settled by their arguments. -/
def isUnsettled (name : String) : Bool :=
  ["changes", "last_insert_rowid", "random", "randomblob", "total_changes"].contains
    (Text.lowerAscii name)

/-- A whole number of 64 bits that looks like any other. -/
def drawn (seed : Nat) : Int :=
  let a := (seed + 1) * 6364136223846793005 + 1442695040888963407
  wrap64 ((a + a / 0x100000000 * 2862933555777941757 : Nat))

/-- The part of a list from a place, which counts from one or, if negative, from the end. Of a
negative length, the part before the place. -/
def slice {α : Type} (items : List α) (place : Int) (length : Option Int) : List α :=
  let size : Int := items.length
  let asked : Int := (length.map fun n => (n.natAbs : Int)).getD (size + 1)
  let (start, count) : Int × Int :=
    if place < 0 then (max 0 (place + size), asked + min 0 (place + size))
    else if place = 0 then (0, asked - 1)
    else (place - 1, asked)
  if length.any fun n => n < 0 then (items.take start.toNat).drop (start - count).toNat
  else (items.drop start.toNat).take count.toNat

/-- A part of a text or a blob. Its place and length count as numbers of 32 bits. -/
def substr (v : Value) (place : Value) (length : Option Value) : Value :=
  if v == .null || place == .null || length == some .null then .null
  else
    let start := wrap32 place.toInt
    let count := length.map fun n => wrap32 n.toInt
    match v with
    | .blob [] => .null
    | .blob bytes => .blob (slice bytes start count)
    | v => .text (String.ofList (slice (v.text?.getD "").toList start count))

/-- The place of the first occurrence of a part, counted from one, or zero. -/
def placeOf {α : Type} [BEq α] (part : List α) : List α → Nat
  | [] => if part.isEmpty then 1 else 0
  | c :: rest =>
    if part.isPrefixOf (c :: rest) then 1
    else
      let place := placeOf part rest
      if place = 0 then 0 else place + 1

/-- The place of one value in another. -/
def instr (v part : Value) : Value :=
  match v, part with
  | .null, _ => .null
  | _, .null => .null
  | .blob bytes, .blob part => .integer (placeOf part bytes)
  | v, part => .integer (placeOf (part.text?.getD "").toList (v.text?.getD "").toList)

/-- The text without the given characters at its front. -/
def trimFront (set cs : List Char) : List Char :=
  cs.dropWhile fun c => set.contains c

/-- The text without the given characters at its end. -/
def trimBack (set cs : List Char) : List Char :=
  (trimFront set cs.reverse).reverse

/-- A text without the characters of a set at the ends that are asked for. -/
def trim (front back : Bool) (v : Value) (set : Option Value) : Value :=
  match v.text?, (set.map Value.text?).getD (some " ") with
  | some s, some set =>
    let cs := if front then trimFront set.toList s.toList else s.toList
    .text (String.ofList (if back then trimBack set.toList cs else cs))
  | _, _ => .null

/-- The number of characters of a text before a character of code zero, or of bytes of a
blob. -/
def length (v : Value) : Value :=
  match v with
  | .null => .null
  | .blob bytes => .integer bytes.length
  | v => .integer (Value.beforeNul (v.text?.getD "")).length

/-- The word for the kind of a value. -/
def typeOf : Value → String
  | .null => "null"
  | .integer _ => "integer"
  | .real _ => "real"
  | .text _ => "text"
  | .blob _ => "blob"

/-- A value as a literal spells it. -/
def quote : Value → String
  | .null => "NULL"
  | .integer n => toString n
  | .real d =>
    let short := Value.doubleText d
    if Value.ofNumericText? short == some (.real d) then short
    else (Format.fill? "%!0.20e" [.real d]).getD short
  | .text s => Sql.quoteText s
  | .blob bytes => "X'" ++ Text.upperAscii (Text.hexOfBytes bytes) ++ "'"

/-- A double rounded to a number of places, which counts as one of 32 bits. -/
def round (v : Value) (places : Value) : Value :=
  if v == .null || places == .null then .null
  else
    let d := v.toDouble
    let places := (max 0 (min 30 (wrap32 places.toInt))).toNat
    if d.isInfinite || 4503599627370496 ≤ d.truncate.natAbs then .real d
    else
      let shown := Format.fixedText { pointed := true } (if d.isNegative then "-" else "")
        d.magnitude places
      .real ((Value.ofNumericText? shown).getD (.real d)).toDouble

/-- The size of a number. It fails on the least whole number, whose size is no whole number of
64 bits. -/
def abs? (v : Value) : Option Value :=
  match v with
  | .null => some .null
  | .integer n => if n = minInteger then none else some (.integer n.natAbs)
  | v =>
    let d := v.toDouble
    some (.real (if d.isNegative then d.negate else d))

/-- The sign of what is a number or spells one. -/
def sign (v : Value) : Value :=
  match Affinity.ofSpelling v with
  | .integer n => .integer (if n < 0 then -1 else if n = 0 then 0 else 1)
  | .real d =>
    .integer (if d.magnitude.mantissa = 0 then 0 else if d.isNegative then -1 else 1)
  | _ => .null

/-- The four characters of a code for the sound of a word. -/
def soundex (s : String) : String :=
  let codes := "01230120022455012623010202".toList
  let code (c : Char) : Char :=
    if c.isAlpha then codes[c.toUpper.toNat - 65]?.getD '0' else '0'
  match s.toList.dropWhile fun c => !c.isAlpha with
  | [] => "?000"
  | first :: rest =>
    let (_, marks) := rest.foldl (fun (last, marks) c =>
      let own := code c
      if own = '0' then ('0', marks)
      else if own = last then (last, marks) else (own, own :: marks)) (code first, [])
    String.ofList ((first.toUpper :: marks.reverse ++ ['0', '0', '0']).take 4)

/-- The text with every occurrence of a part replaced. -/
def replace (v part other : Value) : Value :=
  match v.text?, part.text?, other.text? with
  | some s, some part, some other =>
    if part.isEmpty then .text s else .text (other.intercalate (s.splitOn part))
  | _, _, _ => .null

/-- The longest blob that a function makes. -/
def maxBlob : Int := 10000000

/-- The least or the greatest of values, NULL if it is among them. Of equal values the first is
the greatest and the last the least. -/
def extreme (greatest : Bool) (c : Collation) : List Value → Value
  | [] => .null
  | first :: rest =>
    if (first :: rest).contains .null then .null
    else
      rest.foldl (fun best v =>
        match v.compare c best with
        | .lt => if greatest then best else v
        | .gt => if greatest then v else best
        | .eq => if greatest then best else v) first

/-- Whether a value matches a pattern. The escape is one character. -/
def like? (pattern v : Value) (escape : Option Value) : Option Value :=
  match escape with
  | none =>
    match pattern.text?, v.text? with
    | some p, some s => some (.ofBool (Pattern.like none p.toList s.toList))
    | _, _ => some .null
  | some escape =>
    match escape.text? with
    | none => some .null
    | some escape =>
      match escape.toList, pattern.text?, v.text? with
      | [c], some p, some s => some (.ofBool (Pattern.like (some c) p.toList s.toList))
      | [_], _, _ => some .null
      | _, _, _ => none

/-- Texts one after the other, NULL and empty ones left out. -/
def concat (separator : String) (args : List Value) : Value :=
  .text (separator.intercalate ((args.filterMap Value.text?).filter fun s => !s.isEmpty))

/-- The bytes that hexadecimal digits spell, the characters of a set between them left out. -/
def unhex (v : Value) (ignored : List Char) : Value :=
  match v.text? with
  | none => .null
  | some s =>
    match Text.bytesOfHex (s.toList.filter fun c => !ignored.contains c) with
    | some bytes => .blob bytes
    | none => .null

/-- A character of a code, or the one that stands for none. -/
def charOf (v : Value) : Char :=
  let n := v.toInt
  if 0 ≤ n && n.toNat.isValidChar then Char.ofNat n.toNat else Char.ofNat 0xFFFD

/-- The name of the release of the database. -/
def sourceId : String :=
  "2024-05-23 13:25:27 96c92aba00c8375bc32fafcdf12429c58bd8aabfcadab6683e35bbb9cdebf19e"

/-- What a function gives for values; none if it fails. `seed` settles what is drawn, and `now`
is the time of the statement. -/
def call? (seed : Nat) (now : Int) (c : Collation) (name : String) (args : List Value) :
    Option Value :=
  match name, args with
  | "abs", [v] => abs? v
  | "changes", _ | "last_insert_rowid", _ | "total_changes", _ => some (.integer 0)
  | "char", args => some (.text (String.ofList (args.map charOf)))
  | "concat", args => some (concat "" args)
  | "concat_ws", separator :: args =>
    some (match separator.text? with
      | some separator => concat separator args
      | none => .null)
  | "format", format :: args | "printf", format :: args =>
    some (match format.text? with
      | some format => ((Format.fill? format args).map .text).getD .null
      | none => .null)
  | "format", [] | "printf", [] => some .null
  | "glob", [pattern, v] =>
    some (match pattern.text?, v.text? with
      | some p, some s => .ofBool (Pattern.matchesGlob p.toList s.toList)
      | _, _ => .null)
  | "hex", [v] => some (.text (Text.upperAscii (Text.hexOfBytes v.bytes)))
  | "instr", [v, part] => some (instr v part)
  | "length", [v] => some (length v)
  | "like", [pattern, v] => like? pattern v none
  | "like", [pattern, v, escape] => like? pattern v (some escape)
  | "likelihood", [v, _] | "likely", [v] | "unlikely", [v] => some v
  | "lower", [v] => some ((v.text?.map fun s => .text (Text.lowerAscii s)).getD .null)
  | "upper", [v] => some ((v.text?.map fun s => .text (Text.upperAscii s)).getD .null)
  | "ltrim", v :: set => some (trim true false v set.head?)
  | "rtrim", v :: set => some (trim false true v set.head?)
  | "trim", v :: set => some (trim true true v set.head?)
  | "max", args => some (extreme true c args)
  | "min", args => some (extreme false c args)
  | "nullif", [a, b] => some (if a.compare c b = .eq then .null else a)
  | "octet_length", [v] => some (if v == .null then .null else .integer v.bytes.length)
  | "quote", [v] => some (.text (quote v))
  | "random", _ => some (.integer (drawn seed))
  | "randomblob", [v] =>
    let size := max 1 (min maxBlob v.toInt)
    some (.blob ((List.range size.toNat).map fun i => UInt8.ofNat (drawn (seed + i)).natAbs))
  | "replace", [v, part, other] => some (replace v part other)
  | "round", [v] => some (round v (.integer 0))
  | "round", [v, places] => some (round v places)
  | "sign", [v] => some (sign v)
  | "soundex", [v] => some (.text (soundex (v.text?.getD "")))
  | "sqlite_compileoption_get", _ => some .null
  | "sqlite_compileoption_used", _ => some (.integer 0)
  | "sqlite_source_id", _ => some (.text sourceId)
  | "sqlite_version", _ => some (.text "3.46.0")
  | "substr", [v, place] | "substring", [v, place] => some (substr v place none)
  | "substr", [v, place, length] | "substring", [v, place, length] =>
    some (substr v place (some length))
  | "subtype", _ => some (.integer 0)
  | "typeof", [v] => some (.text (typeOf v))
  | "unhex", [v] => some (unhex v [])
  | "unhex", [v, set] =>
    some (match set.text? with
      | some set => unhex v set.toList
      | none => .null)
  | "unicode", [v] =>
    some (match v.text?.map String.toList with
      | some (c :: _) => .integer c.toNat
      | _ => .null)
  | "zeroblob", [v] =>
    if maxBlob < v.toInt then none else some (.blob (List.replicate v.toInt.toNat 0))
  | "date", args | "time", args | "datetime", args | "julianday", args | "unixepoch", args
  | "strftime", args => some (Clock.call now name args)
  | "timediff", [a, b] => some (Clock.difference now a b)
  | "sqlite_log", _ => some .null
  | "fts5_source_id", _ => some (.text "fts5")
  | _, _ => none

end ProjectHub.Sqlite.Function
