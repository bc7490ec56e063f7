import Savvy.Core.SizeT
import Savvy.Json.NumberText
import Savvy.Kit.Memory

/-!
The print buffer of cJSON (`third_party/cJSON/cJSON.c`). `Savvy.Json.Print` has the
text of a value; here it is written byte by byte into a block that `ensure` makes
longer on the way. The functions write behind `offset` and end what they write
with a zero, and `update_offset` finds the end of it with `strlen`, so a text is in
the buffer only as far as the next zero. A write outside of the block is a fault.
-/

namespace Savvy.CJson

open Kit

/-- `internal_hooks`: the allocator, and whether there is a `reallocate`. -/
structure Hooks where
  memory : Allocator
  reallocates : Bool

/-- `printbuffer`, without formatting, with the heap it allocates from. -/
structure PrintBuffer where
  buffer : Option HeapBlock
  length : ℕ
  offset : ℕ
  heap : Heap

/-- A printing function gives up where the source returns `false` or `NULL`. -/
abbrev Printing := Attempt PrintBuffer

/-- `INT_MAX`. -/
def intMaxSize : ℕ := 2147483647

variable (A : Arch) (M : Hooks)

/-! ### The buffer -/

def PrintBuffer.dropped (p : PrintBuffer) (b : HeapBlock) (heap : Heap) : Option PrintBuffer :=
  (heap.free b).map fun heap => { p with buffer := none, length := 0, heap := heap }

def grow (newsize : ℕ) : Printing Unit := fun p =>
  match p.buffer with
  | none => some (none, p)
  | some b =>
      if M.reallocates then
        match p.heap.reallocate M.memory b newsize with
        | none => none
        | some (none, heap) => (p.dropped b heap).map fun p => (none, p)
        | some (some b', heap) =>
            some (some (), { p with buffer := some b', length := newsize, heap := heap })
      else
        match p.heap.allocate M.memory newsize with
        | (none, heap) => (p.dropped b heap).map fun p => (none, p)
        | (some b', heap) =>
            (copy b'.bytes 0 b.bytes 0 (A.add p.offset 1)).bind fun bytes =>
              (heap.free b).map fun heap =>
                (some (),
                  { p with buffer := some ⟨b'.id, bytes⟩, length := newsize, heap := heap })

def ensure (needed : ℕ) : Printing Unit := fun p =>
  if p.buffer = none then some (none, p)
  else if 0 < p.length ∧ p.length ≤ p.offset then some (none, p)
  else if intMaxSize < needed then some (none, p)
  else
    let needed := A.add needed (A.add p.offset 1)
    if needed ≤ p.length then some (some (), p)
    else if intMaxSize / 2 < needed then
      if needed ≤ intMaxSize then grow A M intMaxSize p else some (none, p)
    else grow A M (A.mul needed 2) p

def put (i : ℕ) (bytes : List UInt8) : Printing Unit :=
  Attempt.change fun p =>
    p.buffer.bind fun b =>
      (copy b.bytes (p.offset + i) bytes 0 bytes.length).map fun written =>
        { p with buffer := some ⟨b.id, written⟩ }

/-- `offset += n`. -/
def advance (n : ℕ) : Printing Unit := Attempt.change fun p => some { p with offset := A.add p.offset n }

def strlen (s : List UInt8) : Option ℕ := if 0 ∈ s then some (cstr s).length else none

def updateOffset : Printing Unit :=
  Attempt.change fun p =>
    match p.buffer with
    | none => some p
    | some b => (strlen (b.bytes.drop p.offset)).map fun n => { p with offset := A.add p.offset n }

/-! ### Values -/

/-- `strcpy` of a word, behind an `ensure`. -/
def printWord (word : List UInt8) : Printing Unit := do
  ensure A M (word.length + 1)
  put 0 (word ++ [0])

/-- `sprintf` into `number_buffer`, which has 26 bytes. -/
def sprintf (text : List UInt8) : Printing Unit :=
  Attempt.change fun p => if text.length + 1 ≤ 26 then some p else none

/-- The conversions of `print_number`. -/
def sprintfAll : List (List UInt8) → Printing Unit
  | [] => pure ()
  | text :: texts => do
      sprintf text
      sprintfAll texts

/-- `print_number`. -/
def printNumberAt (d : Double) : Printing Unit := do
  sprintfAll (numberTexts d)
  ensure A M ((printNumber d).length + 1)
  put 0 (printNumber d ++ [0])
  advance A (printNumber d).length

/-- What one byte of a string adds to `escape_characters`. -/
def escapeExtra (b : UInt8) : ℕ :=
  if b = 34 ∨ b = 92 ∨ b = 8 ∨ b = 12 ∨ b = 10 ∨ b = 13 ∨ b = 9 then 1
  else if b < 32 then 5
  else 0

/-- The first loop of `print_string_ptr`. -/
def escapeCharacters (s : List UInt8) : ℕ := s.foldl (fun n b => A.add n (escapeExtra b)) 0

/-- The second loop, from `output_pointer` on. The `sprintf` of a code point writes
a zero behind it. -/
def putEscaped : ℕ → List UInt8 → Printing Unit
  | _, [] => pure ()
  | i, b :: s => do
      put i (if escapeExtra b = 5 then escapeByte b ++ [0] else escapeByte b)
      putEscaped (A.add i (escapeByte b).length) s

def putString (s : List UInt8) : Printing Unit :=
  if escapeCharacters A s = 0 then put 1 s else putEscaped A 1 s

/-- `print_string_ptr`. -/
def printStringAt (s : List UInt8) : Printing Unit := do
  ensure A M (A.add (A.add (cstr s).length (escapeCharacters A (cstr s))) 3)
  put 0 [34]
  putString A (cstr s)
  put (A.add (A.add (cstr s).length (escapeCharacters A (cstr s))) 1) [34]
  put (A.add (A.add (cstr s).length (escapeCharacters A (cstr s))) 2) [0]

def printByte (needed : ℕ) (b : UInt8) : Printing Unit := do
  ensure A M needed
  put 0 [b]
  advance A 1

def printClose (b : UInt8) : Printing Unit := do
  ensure A M 2
  put 0 [b]
  put 1 [0]

def printComma : Printing Unit := do
  ensure A M 2
  put 0 [44]
  put 1 [0]
  advance A 1

/-- The end of an item: a comma unless it is the last one. -/
def printItemEnd (last : Bool) : Printing Unit := if last then pure () else printComma A M

/-- The end of a member, which has a zero behind it also without a comma. -/
def printMemberEnd (last : Bool) : Printing Unit :=
  if last then do
    ensure A M 1
    put 0 [0]
  else printComma A M

mutual

/-- `print_value`, `print_array` and `print_object`. -/
def printValueAt : Json → Printing Unit
  | .null => printWord A M (ascii "null")
  | .bool false => printWord A M (ascii "false")
  | .bool true => printWord A M (ascii "true")
  | .number d => printNumberAt A M d
  | .string s => printStringAt A M s
  | .array items => do
      printByte A M 1 91
      printItemsAt items
      printClose A M 93
  | .object members => do
      printByte A M 2 123
      printMembersAt members
      printClose A M 125

def printItemsAt : List Json → Printing Unit
  | [] => pure ()
  | v :: rest => do
      printValueAt v
      updateOffset A
      printItemEnd A M rest.isEmpty
      printItemsAt rest

def printMembersAt : List (List UInt8 × Json) → Printing Unit
  | [] => pure ()
  | (name, v) :: rest => do
      printStringAt A M name
      updateOffset A
      printByte A M 1 58
      printValueAt v
      updateOffset A
      printMemberEnd A M rest.isEmpty
      printMembersAt rest

end

/-! ### The whole text -/

def finish : Printing HeapBlock := fun p =>
  match p.buffer with
  | none => none
  | some b =>
      if M.reallocates then
        (p.heap.reallocate M.memory b (A.add p.offset 1)).map fun r =>
          match r with
          | (none, heap) => (none, { p with heap := heap })
          | (some printed, heap) => (some printed, { p with buffer := none, heap := heap })
      else
        match p.heap.allocate M.memory (A.add p.offset 1) with
        | (none, heap) => some (none, { p with heap := heap })
        | (some printed, heap) =>
            (copy printed.bytes 0 b.bytes 0 (min p.length (A.add p.offset 1))).bind fun bytes =>
              (store bytes p.offset 0).bind fun bytes =>
                (heap.free b).map fun heap =>
                  (some ⟨printed.id, bytes⟩, { p with buffer := none, heap := heap })

/-- `fail:`. -/
def printFailed (p : PrintBuffer) : Option Heap :=
  match p.buffer with
  | none => some p.heap
  | some b => p.heap.free b

/-- `print_value`, `update_offset` and the end of `print`. -/
def printAll (v : Json) : Printing HeapBlock := do
  printValueAt A M v
  updateOffset A
  finish A M

/-- `print` without formatting, which is `cJSON_PrintUnformatted`. -/
def printAt (v : Json) (heap : Heap) : Option (Option HeapBlock × Heap) :=
  match heap.allocate M.memory 256 with
  | (none, heap) => some (none, heap)
  | (some b, heap) =>
      match printAll A M v ⟨some b, 256, 0, heap⟩ with
      | none => none
      | some (none, p) => (printFailed p).map fun heap => (none, heap)
      | some (some printed, p) => some (some printed, p.heap)

end Savvy.CJson
