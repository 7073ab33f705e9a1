import Aero.IR.Printer

/-!
Content hashes. The identity of a module or a function is the hash of its text, marked with what it is the text of. The
hash function is BLAKE3, without a key and with a digest of 256 bits: the input is cut into chunks of 1024 bytes, which
are the leaves of a binary tree; a node of the tree is hashed by one compression, and that of the root gives the digest.
-/

namespace Aero.Blake3

/-- Eight words, which a compression starts from and ends with. -/
abbrev Chain := Vector UInt32 8

/-- Sixteen words: the state of a compression, or the message it takes in. -/
abbrev Words := Vector UInt32 16

def initial : Chain :=
  #v[0x6A09E667, 0xBB67AE85, 0x3C6EF372, 0xA54FF53A, 0x510E527F, 0x9B05688C, 0x1F83D9AB, 0x5BE0CD19]

/-- Where each word of the next round's message comes from. -/
def schedule : Vector (Fin 16) 16 := #v[2, 6, 3, 10, 7, 0, 4, 13, 1, 11, 12, 5, 9, 14, 15, 8]

/-- What sets a compression apart: its place in a chunk or in the tree. -/
structure Flags where
  chunkStart : Bool := false
  chunkEnd : Bool := false
  parent : Bool := false
  root : Bool := false
deriving DecidableEq, Repr

def Flags.word (f : Flags) : UInt32 :=
  (if f.chunkStart then 1 else 0) ||| (if f.chunkEnd then 2 else 0) |||
    (if f.parent then 4 else 0) ||| (if f.root then 8 else 0)

def rotate (w : UInt32) (n : UInt32) : UInt32 := (w >>> n) ||| (w <<< (32 - n))

def mix (s : Words) (a b c d : Fin 16) (x y : UInt32) : Words :=
  let va := s[a] + s[b] + x
  let vd := rotate (s[d] ^^^ va) 16
  let vc := s[c] + vd
  let vb := rotate (s[b] ^^^ vc) 12
  let va := va + vb + y
  let vd := rotate (vd ^^^ va) 8
  let vc := vc + vd
  let vb := rotate (vb ^^^ vc) 7
  (((s.set a va).set b vb).set c vc).set d vd

/-- One round: the columns of the state are mixed, and then the diagonals. -/
def round (s m : Words) : Words :=
  let s := mix s 0 4 8 12 m[0] m[1]
  let s := mix s 1 5 9 13 m[2] m[3]
  let s := mix s 2 6 10 14 m[4] m[5]
  let s := mix s 3 7 11 15 m[6] m[7]
  let s := mix s 0 5 10 15 m[8] m[9]
  let s := mix s 1 6 11 12 m[10] m[11]
  let s := mix s 2 7 8 13 m[12] m[13]
  mix s 3 4 9 14 m[14] m[15]

def permute (m : Words) : Words := schedule.map (m[·])

def rounds : Nat → (state message : Words) → Words
  | 0, s, _ => s
  | n + 1, s, m => rounds n (round s m) (permute m)

/-- One compression: what it starts from, the message and its length in bytes, and its place. -/
structure Node where
  chain : Chain
  message : Words
  counter : Nat
  length : Nat
  flags : Flags

def Node.compress (n : Node) : Chain :=
  let counter := n.counter.toUInt64
  let start : Words :=
    #v[n.chain[0], n.chain[1], n.chain[2], n.chain[3], n.chain[4], n.chain[5], n.chain[6], n.chain[7],
      initial[0], initial[1], initial[2], initial[3],
      counter.toUInt32, (counter >>> 32).toUInt32, n.length.toUInt32, n.flags.word]
  let s := rounds 7 start n.message
  Vector.ofFn fun i : Fin 8 => s.get (i.castLE (by decide)) ^^^ s.get (i.addNat 8)

/-- The word of four bytes, lowest first; missing bytes are zero. -/
def wordAt (bytes : Array UInt8) (i : Nat) : UInt32 :=
  let byte (k : Nat) : UInt32 := (bytes.getD (4 * i + k) 0).toUInt32
  byte 0 ||| (byte 1 <<< 8) ||| (byte 2 <<< 16) ||| (byte 3 <<< 24)

def message (bytes : List UInt8) : Words :=
  let bytes := bytes.toArray
  Vector.ofFn fun i : Fin 16 => wordAt bytes i

/-- The last compression of a chunk, after those of its other blocks of 64 bytes. -/
def chunk (counter : Nat) (chain : Chain) (first : Bool) (bytes : List UInt8) : Node :=
  if bytes.length ≤ 64 then
    { chain := chain, message := message bytes, counter := counter, length := bytes.length
      flags := { chunkStart := first, chunkEnd := true } }
  else
    let block : Node :=
      { chain := chain, message := message (bytes.take 64), counter := counter, length := 64
        flags := { chunkStart := first } }
    chunk counter block.compress false (bytes.drop 64)
termination_by bytes.length
decreasing_by simp only [List.length_drop]; omega

def parent (left right : Chain) : Node :=
  { chain := initial
    message := (left ++ right : Vector UInt32 (8 + 8))
    counter := 0
    length := 64
    flags := { parent := true } }

/-- How many of some bytes, more than a chunk, go to the left: as many full chunks as the greatest
power of two that leaves something over. -/
def leftLength (length : Nat) : Nat := Nat.pow 2 (Nat.log2 ((length - 1) / 1024)) * 1024

/-- The node of some bytes, whose first chunk is the one with the given number. -/
def tree (counter : Nat) (bytes : List UInt8) : Node :=
  let left := leftLength bytes.length
  if 1024 < bytes.length ∧ 0 < left ∧ left < bytes.length then
    parent (tree counter (bytes.take left)).compress (tree (counter + left / 1024) (bytes.drop left)).compress
  else chunk counter initial true bytes
termination_by bytes.length
decreasing_by
  all_goals simp only [List.length_take, List.length_drop]; omega

def wordBytes (w : UInt32) : List UInt8 :=
  [w.toUInt8, (w >>> 8).toUInt8, (w >>> 16).toUInt8, (w >>> 24).toUInt8]

def hash (bytes : List UInt8) : List UInt8 :=
  let node := tree 0 bytes
  let root := { node with flags := { node.flags with root := true } }
  root.compress.toList.flatMap wordBytes

end Aero.Blake3

namespace Aero

structure ContentHash where
  bytes : List UInt8
deriving DecidableEq, Repr

namespace ContentHash

def ofText (kind text : String) : ContentHash :=
  ⟨Blake3.hash (IR.utf8Bytes (kind ++ "\x00" ++ text))⟩

def ofModule (m : IR.Module) : ContentHash := ofText "aero.module.v1" m.text

def ofFunction (f : IR.Function) : ContentHash := ofText "aero.function.v1" f.text

/-- The names and identities of the functions that a module defines, sorted by name. -/
def ofFunctions (m : IR.Module) : List (String × ContentHash) :=
  ((m.functions.filter (!·.isDeclaration)).map fun f => (f.name, ofFunction f)).mergeSort fun a b => a.1 ≤ b.1

def hexByte (b : UInt8) : List Char :=
  [Nat.digitChar (b.toNat / 16), Nat.digitChar (b.toNat % 16)]

def hex (h : ContentHash) : String := String.ofList (h.bytes.flatMap hexByte)

def digits : List Char := "0123456789abcdefghjkmnpqrstuvwxyz".toList

/-- The first forty bits in eight digits of five bits each. -/
def short (h : ContentHash) : String :=
  let value := (h.bytes.take 5).foldl (fun n b => n * 256 + b.toNat) 0
  String.ofList ((List.range 8).reverse.map fun i => digits.getD (value / Nat.pow 32 i % 32) '0')

def text (h : ContentHash) : String := "#" ++ h.short

end ContentHash

end Aero
