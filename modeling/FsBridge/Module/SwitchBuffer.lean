/-
  FsBridge.Module.SwitchBuffer

  The FreeSWITCH buffers of the module.  `switch_buffer_create` makes a buffer
  of a fixed size: a FIFO of bytes that takes a write whole when there is room
  for it, and not at all otherwise.

  The buffers are FreeSWITCH's; everything proved about the module holds for
  any implementation `SwitchBuffer` of that behaviour.  `fifoBuffer` is one that
  can be executed.
-/

import FsBridge.Lib.Ascii

namespace FsBridge.Module

open FsBridge.Lib

/-- The operations on `switch_buffer_t`, and what they do to the bytes in it. -/
structure SwitchBuffer where
  Buffer : Type
  create : Nat → Buffer
  inuse : Buffer → Nat
  freespace : Buffer → Nat
  write : Buffer → Bytes → Buffer
  read : Buffer → Nat → Bytes × Buffer
  zero : Buffer → Buffer
  size : Buffer → Nat
  /-- The bytes in the buffer, oldest first. -/
  contents : Buffer → Bytes
  contents_le : ∀ b, (contents b).length ≤ size b
  inuse_eq : ∀ b, inuse b = (contents b).length
  freespace_eq : ∀ b, freespace b = size b - (contents b).length
  size_create : ∀ n, size (create n) = n
  contents_create : ∀ n, contents (create n) = []
  size_write : ∀ b data, size (write b data) = size b
  contents_write : ∀ b data, data.length ≤ freespace b →
    contents (write b data) = contents b ++ data
  contents_write_full : ∀ b data, ¬ data.length ≤ freespace b →
    contents (write b data) = contents b
  size_read : ∀ b n, size (read b n).2 = size b
  read_fst : ∀ b n, (read b n).1 = (contents b).take n
  contents_read : ∀ b n, contents (read b n).2 = (contents b).drop n
  size_zero : ∀ b, size (zero b) = size b
  contents_zero : ∀ b, contents (zero b) = []

/-- The bytes of a fixed-size buffer. -/
structure FifoBuffer where
  size : Nat
  bytes : Bytes
  length_le : bytes.length ≤ size
deriving DecidableEq, Repr

namespace FifoBuffer

def freespace (b : FifoBuffer) : Nat := b.size - b.bytes.length

def write (b : FifoBuffer) (data : Bytes) : FifoBuffer :=
  if h : data.length ≤ b.freespace then
    { b with
      bytes := b.bytes ++ data
      length_le := by
        have hle := b.length_le
        rw [freespace] at h
        rw [List.length_append]
        omega }
  else b

def read (b : FifoBuffer) (n : Nat) : Bytes × FifoBuffer :=
  (b.bytes.take n,
    { b with
      bytes := b.bytes.drop n
      length_le := by
        have hle := b.length_le
        rw [List.length_drop]
        omega })

end FifoBuffer

/-- An executable implementation. -/
def fifoBuffer : SwitchBuffer where
  Buffer := FifoBuffer
  create n := ⟨n, [], Nat.zero_le _⟩
  inuse b := b.bytes.length
  freespace := FifoBuffer.freespace
  write := FifoBuffer.write
  read := FifoBuffer.read
  zero b := ⟨b.size, [], Nat.zero_le _⟩
  size b := b.size
  contents b := b.bytes
  contents_le b := b.length_le
  inuse_eq _ := rfl
  freespace_eq _ := rfl
  size_create _ := rfl
  contents_create _ := rfl
  size_write b data := by
    unfold FifoBuffer.write
    split <;> rfl
  contents_write b data h := by rw [FifoBuffer.write, dif_pos h]
  contents_write_full b data h := by rw [FifoBuffer.write, dif_neg h]
  size_read _ _ := rfl
  read_fst _ _ := rfl
  contents_read _ _ := rfl
  size_zero _ := rfl
  contents_zero _ := rfl

end FsBridge.Module
