/-!
The BLAKE3 digest of a byte string. The input is cut into chunks of 1024 bytes, a chunk into
blocks of 64 bytes that are compressed one after the other, and the chunks are the leaves of a
tree whose left part is the largest complete one that leaves something to the right.
-/

namespace KernelWrap.Digest.Blake3

abbrev Chain := Vector UInt32 8
abbrev Block := Vector UInt32 16

def iv : Chain :=
  #v[0x6A09E667, 0xBB67AE85, 0x3C6EF372, 0xA54FF53A, 0x510E527F, 0x9B05688C, 0x1F83D9AB, 0x5BE0CD19]

def chunkStart : UInt32 := 1
def chunkEnd : UInt32 := 2
def parentFlag : UInt32 := 4
def rootFlag : UInt32 := 8

def chunkSize : Nat := 1024
def blockSize : Nat := 64

def rotateRight (w n : UInt32) : UInt32 := (w >>> n) ||| (w <<< (32 - n))

def mix (v : Block) (a b c d : Fin 16) (x y : UInt32) : Block :=
  let v := v.set a (v[a] + v[b] + x)
  let v := v.set d (rotateRight (v[d] ^^^ v[a]) 16)
  let v := v.set c (v[c] + v[d])
  let v := v.set b (rotateRight (v[b] ^^^ v[c]) 12)
  let v := v.set a (v[a] + v[b] + y)
  let v := v.set d (rotateRight (v[d] ^^^ v[a]) 8)
  let v := v.set c (v[c] + v[d])
  v.set b (rotateRight (v[b] ^^^ v[c]) 7)

def round (v m : Block) : Block :=
  let v := mix v 0 4 8 12 m[0] m[1]
  let v := mix v 1 5 9 13 m[2] m[3]
  let v := mix v 2 6 10 14 m[4] m[5]
  let v := mix v 3 7 11 15 m[6] m[7]
  let v := mix v 0 5 10 15 m[8] m[9]
  let v := mix v 1 6 11 12 m[10] m[11]
  let v := mix v 2 7 8 13 m[12] m[13]
  mix v 3 4 9 14 m[14] m[15]

def schedule : Vector (Fin 16) 16 := #v[2, 6, 3, 10, 7, 0, 4, 13, 1, 11, 12, 5, 9, 14, 15, 8]

def permute (m : Block) : Block := schedule.map fun i => m[i]

def rounds : Nat → Block → Block → Block
  | 0, v, _ => v
  | n + 1, v, m => rounds n (round v m) (permute m)

structure Node where
  chain : Chain
  block : Block
  counter : UInt64
  length : UInt32
  flags : UInt32

def Node.compress (n : Node) (flags : UInt32) : Chain :=
  let start : Block := (n.chain ++ #v[iv[0], iv[1], iv[2], iv[3],
    n.counter.toUInt32, (n.counter >>> 32).toUInt32, n.length, n.flags ||| flags])
  let v := rounds 7 start n.block
  Vector.ofFn fun i : Fin 8 => v.get ⟨i.val, by omega⟩ ^^^ v.get ⟨i.val + 8, by omega⟩

def blockWords (bytes : List UInt8) : Block :=
  let a := bytes.toArray
  let byte (i : Nat) : UInt32 := (a[i]?.getD 0).toUInt32
  Vector.ofFn fun i : Fin 16 =>
    byte (4 * i) ||| (byte (4 * i + 1) <<< 8) ||| (byte (4 * i + 2) <<< 16) |||
      (byte (4 * i + 3) <<< 24)

theorem length_drop_blockSize_lt {bytes : List UInt8} (h : ¬bytes.length ≤ blockSize) :
    (bytes.drop blockSize).length < bytes.length := by
  rw [List.length_drop]
  unfold blockSize at *
  omega

def chunkNode (counter : UInt64) (chain : Chain) (flags : UInt32) (bytes : List UInt8) : Node :=
  if _h : bytes.length ≤ blockSize then
    ⟨chain, blockWords bytes, counter, bytes.length.toUInt32, flags ||| chunkEnd⟩
  else
    let first : Node := ⟨chain, blockWords (bytes.take blockSize), counter, 64, flags⟩
    chunkNode counter (first.compress 0) 0 (bytes.drop blockSize)
  termination_by bytes.length
  decreasing_by exact length_drop_blockSize_lt _h

def leftSize (n : Nat) : Nat := (1 <<< ((n - 1) / chunkSize).log2) * chunkSize

theorem leftSize_bounds {n : Nat} (h : chunkSize < n) : 0 < leftSize n ∧ leftSize n < n := by
  unfold leftSize chunkSize at *
  have hq : (n - 1) / 1024 ≠ 0 := by omega
  have hl := Nat.log2_self_le hq
  have hp := Nat.two_pow_pos ((n - 1) / 1024).log2
  rw [Nat.one_shiftLeft]
  omega

theorem length_take_leftSize_lt {bytes : List UInt8} (h : ¬bytes.length ≤ chunkSize) :
    (bytes.take (leftSize bytes.length)).length < bytes.length := by
  have := leftSize_bounds (Nat.lt_of_not_le h)
  rw [List.length_take]
  omega

theorem length_drop_leftSize_lt {bytes : List UInt8} (h : ¬bytes.length ≤ chunkSize) :
    (bytes.drop (leftSize bytes.length)).length < bytes.length := by
  have := leftSize_bounds (Nat.lt_of_not_le h)
  rw [List.length_drop]
  omega

def treeNode (counter : Nat) (bytes : List UInt8) : Node :=
  if _h : bytes.length ≤ chunkSize then chunkNode counter.toUInt64 iv chunkStart bytes
  else
    let left := treeNode counter (bytes.take (leftSize bytes.length))
    let right := treeNode (counter + leftSize bytes.length / chunkSize)
      (bytes.drop (leftSize bytes.length))
    ⟨iv, left.compress 0 ++ right.compress 0, 0, 64, parentFlag⟩
  termination_by bytes.length
  decreasing_by
    · exact length_take_leftSize_lt _h
    · exact length_drop_leftSize_lt _h

def hexDigit (n : Nat) : Char := "0123456789abcdef".toList.getD n '0'

def wordHex (w : UInt32) : List Char :=
  (List.range 4).flatMap fun k =>
    let b := (w >>> (8 * k).toUInt32).toNat % 256
    [hexDigit (b / 16), hexDigit (b % 16)]

def digest (bytes : List UInt8) : String :=
  String.ofList (((treeNode 0 bytes).compress rootFlag).toList.flatMap wordHex)

end KernelWrap.Digest.Blake3
