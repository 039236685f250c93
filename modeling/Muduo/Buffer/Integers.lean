import Muduo.Foundations.BigEndian
import Muduo.Buffer.Basic

/-!
# Integers in a buffer

Integers travel in network byte order. An integer of `n` bytes is a bit vector;
how its sign is read is left to the place that uses it.
-/

namespace Muduo

open Foundations

/-- The bytes that `hostToNetwork` leaves in memory. -/
def hostToNetwork (n : ℕ) (x : BitVec (8 * n)) : List UInt8 := toBytes n x.toNat

def networkToHost (n : ℕ) (bytes : List UInt8) : BitVec (8 * n) :=
  BitVec.ofNat (8 * n) (ofBytes bytes)

@[simp] theorem length_hostToNetwork (n : ℕ) (x : BitVec (8 * n)) :
    (hostToNetwork n x).length = n :=
  length_toBytes n x.toNat

@[simp] theorem networkToHost_hostToNetwork (n : ℕ) (x : BitVec (8 * n)) :
    networkToHost n (hostToNetwork n x) = x := by
  have hx : x.toNat < 256 ^ n := by
    have h := x.isLt
    rwa [pow_mul] at h
  rw [networkToHost, hostToNetwork, ofBytes_toBytes, Nat.mod_eq_of_lt hx, BitVec.ofNat_toNat,
    BitVec.setWidth_eq]

namespace Buffer

variable (b : Buffer)

def appendInt (n : ℕ) (x : BitVec (8 * n)) : Except Fault Buffer := b.append (hostToNetwork n x)

def appendInt32 (x : BitVec 32) : Except Fault Buffer := b.appendInt 4 x

def peekInt (n : ℕ) : Except Fault (BitVec (8 * n)) := do
  assertThat (n ≤ b.readableBytes)
  return networkToHost n (b.contents.take n)

def peekInt32 : Except Fault (BitVec 32) := b.peekInt 4

theorem peekInt32_ok (h : 4 ≤ b.readableBytes) :
    b.peekInt32 = .ok (networkToHost 4 (b.contents.take 4)) := by
  simp [peekInt32, peekInt, h]

end Buffer
end Muduo
