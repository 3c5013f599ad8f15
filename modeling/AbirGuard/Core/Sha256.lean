/-
SHA-256 and HMAC on byte strings, with 32-bit words as natural numbers below 2^32.

The results about programs take their hash function as a parameter. This is the one to put there where a concrete input
needs concrete digests: it is small enough for the kernel to evaluate on one block.
-/
import AbirGuard.Core.Bytes

namespace AbirGuard.Core

/-- 32 bytes -/
abbrev Digest : Type := Vector UInt8 32

namespace Sha256

def rotr (x n : ℕ) : ℕ := x >>> n ||| x <<< (32 - n) % 2 ^ 32

def K : List ℕ :=
  [0x428a2f98, 0x71374491, 0xb5c0fbcf, 0xe9b5dba5, 0x3956c25b, 0x59f111f1, 0x923f82a4, 0xab1c5ed5,
   0xd807aa98, 0x12835b01, 0x243185be, 0x550c7dc3, 0x72be5d74, 0x80deb1fe, 0x9bdc06a7, 0xc19bf174,
   0xe49b69c1, 0xefbe4786, 0x0fc19dc6, 0x240ca1cc, 0x2de92c6f, 0x4a7484aa, 0x5cb0a9dc, 0x76f988da,
   0x983e5152, 0xa831c66d, 0xb00327c8, 0xbf597fc7, 0xc6e00bf3, 0xd5a79147, 0x06ca6351, 0x14292967,
   0x27b70a85, 0x2e1b2138, 0x4d2c6dfc, 0x53380d13, 0x650a7354, 0x766a0abb, 0x81c2c92e, 0x92722c85,
   0xa2bfe8a1, 0xa81a664b, 0xc24b8b70, 0xc76c51a3, 0xd192e819, 0xd6990624, 0xf40e3585, 0x106aa070,
   0x19a4c116, 0x1e376c08, 0x2748774c, 0x34b0bcb5, 0x391c0cb3, 0x4ed8aa4a, 0x5b9cca4f, 0x682e6ff3,
   0x748f82ee, 0x78a5636f, 0x84c87814, 0x8cc70208, 0x90befffa, 0xa4506ceb, 0xbef9a3f7, 0xc67178f2]

/-- the chaining value -/
structure Chain where
  a : ℕ
  b : ℕ
  c : ℕ
  d : ℕ
  e : ℕ
  f : ℕ
  g : ℕ
  h : ℕ
deriving DecidableEq, Repr

def init : Chain :=
  ⟨0x6a09e667, 0xbb67ae85, 0x3c6ef372, 0xa54ff53a, 0x510e527f, 0x9b05688c, 0x1f83d9ab, 0x5be0cd19⟩

/-- append 0x80, zeros and the length in bits, up to a multiple of 64 bytes -/
def pad (m : Bytes) : Bytes :=
  m ++ 0x80 :: List.replicate ((119 - m.length % 64) % 64) 0 ++ (leBytes 8 (8 * m.length)).reverse

/-- a big-endian word -/
def word (b0 b1 b2 b3 : UInt8) : ℕ := ((b0.toNat * 256 + b1.toNat) * 256 + b2.toNat) * 256 + b3.toNat

def words : Bytes → List ℕ
  | b0 :: b1 :: b2 :: b3 :: rest => word b0 b1 b2 b3 :: words rest
  | _ => []

/-- the next word of the schedule, from the words so far with the latest first -/
def nextWord (ws : List ℕ) : ℕ :=
  let w2 := ws.getD 1 0
  let w15 := ws.getD 14 0
  let s0 := rotr w15 7 ^^^ rotr w15 18 ^^^ w15 >>> 3
  let s1 := rotr w2 17 ^^^ rotr w2 19 ^^^ w2 >>> 10
  (s1 + ws.getD 6 0 + s0 + ws.getD 15 0) % 2 ^ 32

/-- n more words -/
def extend : ℕ → List ℕ → List ℕ
  | 0, ws => ws
  | n + 1, ws => extend n (nextWord ws :: ws)

/-- the 64 words of a block -/
def schedule (block : List ℕ) : List ℕ := (extend 48 block.reverse).reverse

def round (s : Chain) (k w : ℕ) : Chain :=
  let s1 := rotr s.e 6 ^^^ rotr s.e 11 ^^^ rotr s.e 25
  let ch := s.e &&& s.f ^^^ (2 ^ 32 - 1 - s.e) &&& s.g
  let t1 := s.h + s1 + ch + k + w
  let s0 := rotr s.a 2 ^^^ rotr s.a 13 ^^^ rotr s.a 22
  let maj := s.a &&& s.b ^^^ s.a &&& s.c ^^^ s.b &&& s.c
  ⟨(t1 + s0 + maj) % 2 ^ 32, s.a, s.b, s.c, (s.d + t1) % 2 ^ 32, s.e, s.f, s.g⟩

def compress (s : Chain) (block : List ℕ) : Chain :=
  let r := (K.zip (schedule block)).foldl (fun s p => round s p.1 p.2) s
  ⟨(s.a + r.a) % 2 ^ 32, (s.b + r.b) % 2 ^ 32, (s.c + r.c) % 2 ^ 32, (s.d + r.d) % 2 ^ 32, (s.e + r.e) % 2 ^ 32,
   (s.f + r.f) % 2 ^ 32, (s.g + r.g) % 2 ^ 32, (s.h + r.h) % 2 ^ 32⟩

/-- the chain after n blocks of 16 words -/
def blocks : ℕ → Chain → List ℕ → Chain
  | 0, s, _ => s
  | n + 1, s, ws => blocks n (compress s (ws.take 16)) (ws.drop 16)

def wordBytes (w : ℕ) : Bytes := (leBytes 4 w).reverse

theorem length_wordBytes (w : ℕ) : (wordBytes w).length = 4 := by simp [wordBytes, leBytes]

def output (s : Chain) : Bytes := [s.a, s.b, s.c, s.d, s.e, s.f, s.g, s.h].flatMap wordBytes

theorem length_output (s : Chain) : (output s).length = 32 := by simp [output, length_wordBytes]

end Sha256

def sha256 (m : Bytes) : Digest :=
  let ws := Sha256.words (Sha256.pad m)
  ⟨(Sha256.output (Sha256.blocks (ws.length / 16) Sha256.init ws)).toArray, by simp [Sha256.length_output]⟩

example : (sha256 [97, 98, 99]).toList =
    [0xba, 0x78, 0x16, 0xbf, 0x8f, 0x01, 0xcf, 0xea, 0x41, 0x41, 0x40, 0xde, 0x5d, 0xae, 0x22, 0x23,
     0xb0, 0x03, 0x61, 0xa3, 0x96, 0x17, 0x7a, 0x9c, 0xb4, 0x10, 0xff, 0x61, 0xf2, 0x00, 0x15, 0xad] := by
  decide +kernel

/-- no other message has the digest of m -/
def InjAt (hash : Bytes → Digest) (m : Bytes) : Prop := ∀ b, hash b = hash m → b = m

/-- SHA-256 on some messages, and zeros on all others -/
def sha256On (messages : List Bytes) (m : Bytes) : Digest := if m ∈ messages then sha256 m else Vector.replicate 32 0

/-- where these messages have different digests, and none of them zeros, none has a collision -/
theorem injAt_sha256On {messages : List Bytes} (hinj : ∀ m ∈ messages, ∀ b ∈ messages, sha256 b = sha256 m → b = m)
    (hzero : ∀ m ∈ messages, sha256 m ≠ Vector.replicate 32 0) {m : Bytes} (hm : m ∈ messages) :
    InjAt (sha256On messages) m := by
  intro b hb
  rw [sha256On, sha256On, if_pos hm] at hb
  split_ifs at hb with hmem
  · exact hinj m hm b hmem hb
  · exact absurd hb.symm (hzero m hm)

/-- HMAC with SHA-256, whose blocks have 64 bytes -/
def hmacSha256 (key message : Bytes) : Digest :=
  let key := if 64 < key.length then (sha256 key).toList else key
  let block := key ++ List.replicate (64 - key.length) 0
  sha256 (block.map (0x5c ^^^ ·) ++ (sha256 (block.map (0x36 ^^^ ·) ++ message)).toList)

end AbirGuard.Core
