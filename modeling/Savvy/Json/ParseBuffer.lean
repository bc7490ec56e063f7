import Savvy.Core.SizeT
import Savvy.Json.Parse
import Savvy.Kit.Memory

/-!
The parse buffer of cJSON (`third_party/cJSON/cJSON.c`). `Savvy.Json.Parse` has the
tree of a text; here the text is a block that is read at offsets, and the items and
their strings are blocks of a heap, which are freed again where parsing fails. A read
outside of the text, a write outside of a block and a block freed twice are faults.

The items that `next` and `prev` link are a list.
-/

namespace Savvy.CJson

open Kit

/-- The types of items. A new item has none of them. -/
inductive ItemType
  | invalid
  | false
  | true
  | null
  | number
  | string
  | array
  | object
  deriving DecidableEq

/-- `cJSON`, with the block it is in. -/
structure Item where
  block : HeapBlock
  type : ItemType
  valuestring : Option HeapBlock
  valueint : ℤ
  valuedouble : Double
  string : Option HeapBlock
  child : List Item

/-- `parse_buffer`, but for `content` and `length`, which stay the same, with the heap
it allocates from. -/
structure ParseBuffer where
  offset : ℕ
  depth : ℕ
  heap : Heap

/-- A parsing function gives up where the source returns `false`, `NULL` or 0. -/
abbrev Parsing := Attempt ParseBuffer

variable (A : Arch) (M : Allocator) (content : List UInt8)

/-! ### Items -/

def sizeofItem : ℕ := 64

/-- `hooks.allocate`. -/
def allocateBytes (n : ℕ) : Parsing HeapBlock := fun p =>
  match p.heap.allocate M n with
  | (none, heap) => some (none, { p with heap := heap })
  | (some b, heap) => some (some b, { p with heap := heap })

def newItem : Parsing Item := do
  let b ← allocateBytes M sizeofItem
  pure ⟨b, .invalid, none, 0, .finite 0, none, []⟩

def freeString (b : Option HeapBlock) (heap : Heap) : Option Heap :=
  match b with
  | none => some heap
  | some b => heap.free b

mutual

/-- One turn of the loop of `cJSON_Delete`. -/
def deleteItem : Item → Heap → Option Heap
  | ⟨block, _, valuestring, _, _, string, child⟩, heap =>
      (deleteItems child heap).bind fun heap =>
        (freeString valuestring heap).bind fun heap =>
          (freeString string heap).bind fun heap => heap.free block

/-- `cJSON_Delete`. -/
def deleteItems : List Item → Heap → Option Heap
  | [], heap => some heap
  | item :: next, heap => (deleteItem item heap).bind fun heap => deleteItems next heap

end

/-- `cJSON_Delete` where parsing has failed. -/
def deleteAll (items : List Item) (p : ParseBuffer) : Option ParseBuffer :=
  (deleteItems items p.heap).map fun heap => { p with heap := heap }

/-! ### The buffer -/

/-- `can_access_at_index`. -/
def canAccess (i : ℕ) (p : ParseBuffer) : Bool := A.add p.offset i < content.length

def canRead (n : ℕ) (p : ParseBuffer) : Bool := A.add p.offset n ≤ content.length

/-- `buffer->offset += n`. -/
def forward (n : ℕ) : Parsing Unit :=
  Attempt.change fun p => some { p with offset := A.add p.offset n }

/-- `buffer_at_offset(buffer)[0] == b`, without a check. -/
def here (b : UInt8) : Parsing Unit := fun p =>
  (content[p.offset]?).map fun c => if c = b then (some (), p) else (none, p)

/-- `can_access_at_index(buffer, 0) && (buffer_at_offset(buffer)[0] == b)`. -/
def currentIs (b : UInt8) : Parsing Bool := fun p =>
  if canAccess A content 0 p then (content[p.offset]?).map fun c => (some (c == b), p)
  else some (some false, p)

def expect (b : UInt8) : Parsing Unit := do
  if ← currentIs A content b then pure () else Attempt.giveUp

/-- `strncmp(buffer_at_offset(buffer), word, n) == 0` for a word of `n` bytes. -/
def strncmpHere (word : List UInt8) (p : ParseBuffer) : Option Bool :=
  if p.offset + word.length ≤ content.length then
    some (slice content p.offset (p.offset + word.length) == word)
  else none

/-- `can_read(buffer, n) && (strncmp(buffer_at_offset(buffer), word, n) == 0)`. -/
def startsWith (word : List UInt8) : Parsing Bool := fun p =>
  if canRead A content word.length p then
    (strncmpHere content word p).map fun b => (some b, p)
  else some (some false, p)

def skipLoop : ℕ → ParseBuffer → Option ParseBuffer
  | 0, _ => none
  | turns + 1, p =>
      if canAccess A content 0 p then
        (content[p.offset]?).bind fun b =>
          if b ≤ 32 then skipLoop turns { p with offset := A.add p.offset 1 } else some p
      else some p

def bufferSkipWhitespace : Parsing Unit :=
  Attempt.change fun p =>
    if canAccess A content 0 p then
      (skipLoop A content (content.length + 1) p).map fun p =>
        if p.offset = content.length then { p with offset := A.sub p.offset 1 } else p
    else some p

/-- `skip_utf8_bom`. -/
def bufferSkipUtf8Bom : Parsing Unit := fun p =>
  if p.offset ≠ 0 then some (none, p)
  else if canAccess A content 4 p then
    (strncmpHere content [0xEF, 0xBB, 0xBF] p).map fun b =>
      (some (), if b then { p with offset := A.add p.offset 3 } else p)
  else some (some (), p)

/-! ### Numbers -/

/-- The loop of `parse_number`: how many bytes belong to the number. -/
def numberLength : ℕ → ℕ → ParseBuffer → Option ℕ
  | 0, _, _ => none
  | turns + 1, i, p =>
      if canAccess A content i p then
        (content[p.offset + i]?).bind fun b =>
          if isNumberByte b then numberLength turns (i + 1) p else some i
      else some i

def copyNumber (b : HeapBlock) (n : ℕ) : Parsing HeapBlock := fun p =>
  (copy b.bytes 0 content p.offset n).bind fun bytes =>
    (store bytes n 0).map fun bytes => (some ⟨b.id, bytes⟩, p)

/-- `strtod` on the copy, which is freed. -/
def readNumber (b : HeapBlock) (item : Item) : Parsing Item := fun p =>
  if 0 ∈ b.bytes then
    (p.heap.free b).map fun heap =>
      match strtod (cstr b.bytes) with
      | none => (none, { p with heap := heap })
      | some (d, behind) =>
          (some { item with type := .number, valueint := d.valueint, valuedouble := d },
            { p with
              offset := A.add p.offset ((cstr b.bytes).length - behind.length), heap := heap })
  else none

/-- `parse_number`. -/
def parseNumberAt (item : Item) : Parsing Item := do
  let n ← fun p => (numberLength A content (content.length + 1) 0 p).map fun n => (some n, p)
  let b ← allocateBytes M (A.add n 1)
  let b ← copyNumber content b n
  readNumber A b item

/-! ### Strings -/

/-- `output`, and the index of `output_pointer` in it. -/
structure StringOutput where
  bytes : List UInt8
  pos : ℕ

/-- `*output_pointer++ = b`. -/
def putByte (b : UInt8) : Attempt StringOutput Unit :=
  Attempt.change fun o => (store o.bytes o.pos b).map fun bytes => ⟨bytes, o.pos + 1⟩

def contentAt {σ : Type} (i : ℕ) : Attempt σ UInt8 := fun s =>
  (content[i]?).map fun b => (some b, s)

def hex4Loop : ℕ → ℕ → ℕ → Option ℕ
  | 0, _, h => some h
  | n + 1, i, h =>
      (content[i]?).bind fun b =>
        match hexDigit b with
        | none => some 0
        | some d => hex4Loop n (i + 1) (if n = 0 then h + d else (h + d) <<< 4)

/-- `parse_hex4`. -/
def parseHex4At {σ : Type} (i : ℕ) : Attempt σ ℕ := fun s =>
  (hex4Loop content 4 i 0).map fun h => (some h, s)

/-- The loop that writes the last `n` bytes of a code point, and what it leaves of it. -/
def putTail (pos : ℕ) : ℕ → ℕ → List UInt8 → Option (ℕ × List UInt8)
  | 0, cp, bytes => some (cp, bytes)
  | n + 1, cp, bytes =>
      (store bytes (pos + (n + 1)) (UInt8.ofNat ((cp ||| 0x80) &&& 0xBF))).bind fun bytes =>
        putTail pos n (cp >>> 6) bytes

/-- The end of `utf16_literal_to_utf8`, with `n` bytes behind the first one. -/
def putUtf8 (n mark mask cp : ℕ) : Attempt StringOutput Unit :=
  Attempt.change fun o =>
    (putTail o.pos n cp o.bytes).bind fun (cp, bytes) =>
      (store bytes o.pos (UInt8.ofNat ((cp ||| mark) &&& mask))).map fun bytes =>
        ⟨bytes, o.pos + n + 1⟩

def putCodepoint (cp : ℕ) : Attempt StringOutput Unit :=
  if cp < 0x80 then putUtf8 0 0 0x7F cp
  else if cp < 0x800 then putUtf8 1 0xC0 0xFF cp
  else if cp < 0x10000 then putUtf8 2 0xE0 0xFF cp
  else if cp ≤ 0x10FFFF then putUtf8 3 0xF0 0xFF cp
  else Attempt.giveUp

/-- The second sequence of a surrogate pair at `i`. -/
def secondSequence (first i e : ℕ) : Attempt StringOutput ℕ :=
  if e < i + 6 then Attempt.giveUp
  else do
    let x ← contentAt content i
    if x ≠ 92 then Attempt.giveUp
    else do
      let y ← contentAt content (i + 1)
      if y ≠ 117 then Attempt.giveUp
      else do
        let second ← parseHex4At content (i + 2)
        if second < 0xDC00 ∨ 0xDFFF < second then Attempt.giveUp
        else do
          putCodepoint (0x10000 + ((first &&& 0x3FF) <<< 10 ||| second &&& 0x3FF))
          pure 12

/-- `utf16_literal_to_utf8` at `i` of a literal that ends at `e`; it returns
`sequence_length`. -/
def utf16LiteralToUtf8 (i e : ℕ) : Attempt StringOutput ℕ :=
  if e < i + 6 then Attempt.giveUp
  else do
    let first ← parseHex4At content (i + 2)
    if 0xDC00 ≤ first ∧ first ≤ 0xDFFF then Attempt.giveUp
    else if 0xD800 ≤ first ∧ first ≤ 0xDBFF then secondSequence content first (i + 6) e
    else do
      putCodepoint first
      pure 6

/-- The `switch` of `parse_string`; it returns `sequence_length`. -/
def escapeAt (i e : ℕ) : Attempt StringOutput ℕ := do
  let c ← contentAt content (i + 1)
  match simpleEscape c with
  | some x => do
      putByte x
      pure 2
  | none => if c = 117 then utf16LiteralToUtf8 content i e else Attempt.giveUp

/-- The second loop of `parse_string`, with `input_pointer` at `i` and `input_end` at
`e`. -/
def unescapeAt (e : ℕ) : ℕ → ℕ → Attempt StringOutput Unit
  | 0, _ => Attempt.fault
  | turns + 1, i =>
      if i < e then do
        let b ← contentAt content i
        if b ≠ 92 then do
          putByte b
          unescapeAt e turns (i + 1)
        else do
          let n ← escapeAt content i e
          unescapeAt e turns (i + n)
      else pure ()

/-- The first loop of `parse_string`: the indices of `input_end`, and the skipped
bytes. -/
def closingQuote : ℕ → ℕ → ℕ → Parsing (ℕ × ℕ)
  | 0, _, _ => Attempt.fault
  | turns + 1, e, skipped =>
      if content.length ≤ e then Attempt.giveUp
      else do
        let b ← contentAt content e
        if b = 34 then pure (e, skipped)
        else if b = 92 then
          if content.length ≤ e + 1 then Attempt.giveUp
          else closingQuote turns (e + 2) (skipped + 1)
        else closingQuote turns (e + 1) skipped

/-- The second loop and the terminator. The output is freed if an escape is bad. -/
def fillString (output : HeapBlock) (start e : ℕ) : Parsing HeapBlock := fun p =>
  match unescapeAt content e (content.length + 1) start ⟨output.bytes, 0⟩ with
  | none => none
  | some (none, _) => (p.heap.free output).map fun heap => (none, { p with heap := heap })
  | some (some (), o) =>
      (store o.bytes o.pos 0).map fun bytes => (some ⟨output.id, bytes⟩, p)

/-- `parse_string`. -/
def parseStringAt (item : Item) : Parsing Item := do
  here content 34
  let start ← fun p => some (some p.offset, p)
  let (e, skipped) ← closingQuote content (content.length + 1) (start + 1) 0
  let output ← allocateBytes M (A.add (A.sub (e - start) skipped) 1)
  let output ← fillString content output (start + 1) e
  Attempt.change fun p => some { p with offset := e + 1 }
  pure { item with type := .string, valuestring := some output }

/-! ### Values -/

/-- `CJSON_NESTING_LIMIT` and `depth++`. -/
def enterLevel : Parsing Unit := fun p =>
  if nestingLimit ≤ p.depth then some (none, p) else some (some (), { p with depth := p.depth + 1 })

/-- One item of the loop of `parse_array`, behind those that are `done`. -/
def parseElementAt (pv : Item → Parsing Item) (done : List Item) : Parsing (List Item) := do
  let item ← (newItem M).orDo (deleteAll done)
  forward A 1
  bufferSkipWhitespace A content
  let item ← (pv item).orDo (deleteAll (done ++ [item]))
  bufferSkipWhitespace A content
  pure (done ++ [item])

/-- `valuestring` becomes `string`. -/
def Item.named (item : Item) : Item :=
  { item with string := item.valuestring, valuestring := none }

def expectMore : Parsing Unit := fun p =>
  if canAccess A content 1 p then some (some (), p) else some (none, p)

def parseMemberAt (pv : Item → Parsing Item) (done : List Item) : Parsing (List Item) := do
  let item ← (newItem M).orDo (deleteAll done)
  (expectMore A content).orDo (deleteAll (done ++ [item]))
  forward A 1
  bufferSkipWhitespace A content
  let item ← (parseStringAt A M content item).orDo (deleteAll (done ++ [item]))
  bufferSkipWhitespace A content
  let item := item.named
  (expect A content 58).orDo (deleteAll (done ++ [item]))
  forward A 1
  bufferSkipWhitespace A content
  let item ← (pv item).orDo (deleteAll (done ++ [item]))
  bufferSkipWhitespace A content
  pure (done ++ [item])

/-- The loops of `parse_array` and `parse_object`, and the closing bracket. -/
def parseChildren (close : UInt8) (child : List Item → Parsing (List Item)) :
    ℕ → List Item → Parsing (List Item)
  | 0, _ => Attempt.fault
  | turns + 1, done => do
      let done ← child done
      if ← currentIs A content 44 then parseChildren close child turns done
      else do
        (expect A content close).orDo (deleteAll done)
        pure done

/-- One step back, in front of the first item, which has to be there. -/
def stepBack : Parsing Unit := fun p =>
  if canAccess A content 0 p then some (some (), { p with offset := A.sub p.offset 1 })
  else some (none, { p with offset := A.sub p.offset 1 })

/-- `success:`. -/
def finishItem (type : ItemType) (children : List Item) (item : Item) : Parsing Item := do
  Attempt.change fun p => some { p with depth := p.depth - 1 }
  forward A 1
  pure { item with type := type, child := children }

/-- `parse_array` and `parse_object` behind the opening bracket. -/
def parseBrackets (type : ItemType) (close : UInt8) (child : List Item → Parsing (List Item))
    (item : Item) : Parsing Item := do
  forward A 1
  bufferSkipWhitespace A content
  if ← currentIs A content close then finishItem A type [] item
  else do
    stepBack A content
    let children ← parseChildren A content close child (content.length + 1) []
    finishItem A type children item

/-- `parse_array`. -/
def parseArrayAt (pv : Item → Parsing Item) (item : Item) : Parsing Item := do
  enterLevel
  here content 91
  parseBrackets A content .array 93 (parseElementAt A M content pv) item

/-- `parse_object`. -/
def parseObjectAt (pv : Item → Parsing Item) (item : Item) : Parsing Item := do
  enterLevel
  expect A content 123
  parseBrackets A content .object 125 (parseMemberAt A M content pv) item

/-- The literals `null`, `false` and `true`. -/
def parseWord (type : ItemType) (valueint : ℤ) (n : ℕ) (item : Item) : Parsing Item := do
  forward A n
  pure { item with type := type, valueint := valueint }

/-- `parse_value` on numbers, arrays and objects. -/
def parseOther (pv : Item → Parsing Item) (item : Item) : Parsing Item := fun p =>
  if canAccess A content 0 p then
    (content[p.offset]?).bind fun b =>
      if b = 34 then parseStringAt A M content item p
      else if b = 45 ∨ isDigit b then parseNumberAt A M content item p
      else if b = 91 then parseArrayAt A M content pv item p
      else if b = 123 then parseObjectAt A M content pv item p
      else some (none, p)
  else some (none, p)

/-- `parse_value`. The nesting limit ends the recursion before `levels` does. -/
def parseValueAt : ℕ → Item → Parsing Item
  | 0, _ => Attempt.fault
  | levels + 1, item => do
      if ← startsWith A content (ascii "null") then parseWord A .null item.valueint 4 item
      else if ← startsWith A content (ascii "false") then
        parseWord A .false item.valueint 5 item
      else if ← startsWith A content (ascii "true") then parseWord A .true 1 4 item
      else parseOther A M content (parseValueAt levels) item

/-! ### Texts -/

def checkTerminator (requireNullTerminated : Bool) : Parsing Unit :=
  if requireNullTerminated then do
    bufferSkipWhitespace A content
    expect A content 0
  else pure ()

def parseRoot (root : Item) : Parsing Item := do
  bufferSkipUtf8Bom A content
  bufferSkipWhitespace A content
  parseValueAt A M content (nestingLimit + 1) root

/-- `cJSON_ParseWithLengthOpts`, on the text `content`. -/
def parseWithLengthOptsAt (requireNullTerminated : Bool) : Parsing Item :=
  if content = [] then Attempt.giveUp
  else do
    let root ← newItem M
    let item ← (parseRoot A M content root).orDo (deleteAll [root])
    (checkTerminator A content requireNullTerminated).orDo (deleteAll [item])
    pure item

end Savvy.CJson
