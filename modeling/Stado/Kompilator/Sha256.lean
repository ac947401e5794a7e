import Stado.Library.Fips180
import Mathlib.Data.List.Induction

/-!
# The kompilator's SHA-256

The digest a lock's checksum is compared with, over bytes and with an array of
words for each block, and that it is the standard's.
-/

namespace Stado.Kompilator.Sha256

open Fips180 List

abbrev Bytes := List UInt8

def k : List UInt32 :=
  [0x428a2f98, 0x71374491, 0xb5c0fbcf, 0xe9b5dba5, 0x3956c25b, 0x59f111f1, 0x923f82a4, 0xab1c5ed5,
    0xd807aa98, 0x12835b01, 0x243185be, 0x550c7dc3, 0x72be5d74, 0x80deb1fe, 0x9bdc06a7, 0xc19bf174,
    0xe49b69c1, 0xefbe4786, 0x0fc19dc6, 0x240ca1cc, 0x2de92c6f, 0x4a7484aa, 0x5cb0a9dc, 0x76f988da,
    0x983e5152, 0xa831c66d, 0xb00327c8, 0xbf597fc7, 0xc6e00bf3, 0xd5a79147, 0x06ca6351, 0x14292967,
    0x27b70a85, 0x2e1b2138, 0x4d2c6dfc, 0x53380d13, 0x650a7354, 0x766a0abb, 0x81c2c92e, 0x92722c85,
    0xa2bfe8a1, 0xa81a664b, 0xc24b8b70, 0xc76c51a3, 0xd192e819, 0xd6990624, 0xf40e3585, 0x106aa070,
    0x19a4c116, 0x1e376c08, 0x2748774c, 0x34b0bcb5, 0x391c0cb3, 0x4ed8aa4a, 0x5b9cca4f, 0x682e6ff3,
    0x748f82ee, 0x78a5636f, 0x84c87814, 0x8cc70208, 0x90befffa, 0xa4506ceb, 0xbef9a3f7, 0xc67178f2]

def initial : Eight UInt32 :=
  ⟨0x6a09e667, 0xbb67ae85, 0x3c6ef372, 0xa54ff53a, 0x510e527f, 0x9b05688c, 0x1f83d9ab, 0x5be0cd19⟩

def rotateRight (x : UInt32) (n : ℕ) : UInt32 := ⟨x.toBitVec.rotateRight n⟩

/-- The last `n` bytes of a number, the most significant first. -/
def toBeBytes : ℕ → ℕ → Bytes
  | 0, _ => []
  | n + 1, x => UInt8.ofNat (x / 256 ^ n) :: toBeBytes n x

def fromBeBytes (word : Bytes) : UInt32 :=
  UInt32.ofNat (word.foldl (fun n byte => 256 * n + byte.toNat) 0)

/-- `while message.len() % 64 != 56`, which takes at most 63 turns. -/
def pushZeros : ℕ → Bytes → Bytes
  | 0, message => message
  | turns + 1, message =>
    if message.length % 64 ≠ 56 then pushZeros turns (message ++ [0]) else message

def padded (bytes : Bytes) : Bytes :=
  let length := bytes.length * 8 % 2 ^ 64
  pushZeros 63 (bytes ++ [0x80]) ++ toBeBytes 8 length

/-- One turn of the loop that fills the rest of a block's array. -/
def fill (w : List UInt32) (i : ℕ) : List UInt32 :=
  let word (back : ℕ) : UInt32 := w.getD (i - back) 0
  let s0 := rotateRight (word 15) 7 ^^^ rotateRight (word 15) 18 ^^^ word 15 >>> 3
  let s1 := rotateRight (word 2) 17 ^^^ rotateRight (word 2) 19 ^^^ word 2 >>> 10
  w.set i (word 16 + s0 + word 7 + s1)

/-- The array of a block. -/
def words (block : Bytes) : List UInt32 :=
  (List.range' 16 48).foldl fill
    ((List.range 16).map (fun i => fromBeBytes ((block.drop (4 * i)).take 4)) ++
      List.replicate 48 0)

def turn (w : List UInt32) (s : Eight UInt32) (i : ℕ) : Eight UInt32 :=
  let s1 := rotateRight s.e 6 ^^^ rotateRight s.e 11 ^^^ rotateRight s.e 25
  let choice := (s.e &&& s.f) ^^^ (~~~s.e &&& s.g)
  let t1 := s.h + s1 + choice + k.getD i 0 + w.getD i 0
  let s0 := rotateRight s.a 2 ^^^ rotateRight s.a 13 ^^^ rotateRight s.a 22
  let majority := (s.a &&& s.b) ^^^ (s.a &&& s.c) ^^^ (s.b &&& s.c)
  let t2 := s0 + majority
  ⟨t1 + t2, s.a, s.b, s.c, s.d + t1, s.e, s.f, s.g⟩

def compress (state : Eight UInt32) (block : Bytes) : Eight UInt32 :=
  let s := (List.range 64).foldl (turn (words block)) state
  ⟨state.a + s.a, state.b + s.b, state.c + s.c, state.d + s.d, state.e + s.e, state.f + s.f,
    state.g + s.g, state.h + s.h⟩

def state (bytes : Bytes) : Eight UInt32 := (pieces 64 (padded bytes)).foldl compress initial

/-- The digest as 64 lower-case hexadecimal digits. -/
def hex (bytes : Bytes) : String :=
  String.ofList ((state bytes).toList.flatMap fun word => hexWord word.toBitVec)

/-! ## Bytes as bits -/

def toBits (bytes : Bytes) : List Bool := bytes.flatMap fun byte => bits 8 byte.toNat

theorem toBits_append (left right : Bytes) : toBits (left ++ right) = toBits left ++ toBits right :=
  flatMap_append

@[simp] theorem length_toBits (bytes : Bytes) : (toBits bytes).length = 8 * bytes.length := by
  induction bytes with
  | nil => rfl
  | cons byte bytes ih =>
    show (bits 8 byte.toNat ++ toBits bytes).length = _
    rw [length_append, length_bits, ih, length_cons]
    omega

theorem drop_toBits (n : ℕ) (bytes : Bytes) :
    (toBits bytes).drop (8 * n) = toBits (bytes.drop n) := by
  have hsplit := toBits_append (bytes.take n) (bytes.drop n)
  rw [take_append_drop] at hsplit
  by_cases hn : n ≤ bytes.length
  · rw [hsplit, drop_append_of_le_length (by simp [hn]), drop_of_length_le (by simp [hn]),
      nil_append]
  · rw [drop_of_length_le (by rw [length_toBits]; omega), drop_of_length_le (by omega)]
    rfl

theorem take_toBits (n : ℕ) (bytes : Bytes) :
    (toBits bytes).take (8 * n) = toBits (bytes.take n) := by
  have hsplit := toBits_append (bytes.take n) (bytes.drop n)
  rw [take_append_drop] at hsplit
  have hparts := take_append_drop (8 * n) (toBits bytes)
  rw [drop_toBits] at hparts
  exact append_cancel_right (hparts.trans hsplit)

theorem pieces_toBits (bytes : Bytes) :
    pieces 512 (toBits bytes) = (pieces 64 bytes).map toBits := by
  unfold pieces
  rw [length_toBits, List.map_map, show 8 * bytes.length / 512 = bytes.length / 64 by omega]
  refine map_congr_left fun i _ => ?_
  rw [show 512 * i = 8 * (64 * i) by omega, drop_toBits, show 512 = 8 * 64 by rfl, take_toBits]
  rfl

theorem value_toBits (bytes : Bytes) :
    value (toBits bytes) = bytes.foldl (fun n byte => 256 * n + byte.toNat) 0 := by
  induction bytes using List.reverseRecOn with
  | nil => rfl
  | append_singleton bytes byte ih =>
    have hlast : value (toBits [byte]) = byte.toNat := by
      rw [toBits, flatMap_singleton, value_bits]
      exact Nat.mod_eq_of_lt byte.toNat_lt
    rw [toBits_append, value_append, ih, hlast, length_toBits, foldl_append]
    exact congrArg (· + byte.toNat) (Nat.mul_comm _ 256)

/-- The word of four bytes, and of every row of bytes, is that of their bits. -/
theorem toWord_toBits (bytes : Bytes) : toWord (toBits bytes) = (fromBeBytes bytes).toBitVec := by
  rw [toWord, value_toBits]
  rfl

/-! ## The padding -/

theorem pushZeros_eq {turns : ℕ} {message : Bytes} (h : (120 - message.length % 64) % 64 ≤ turns) :
    pushZeros turns message = message ++ List.replicate ((120 - message.length % 64) % 64) 0 := by
  induction turns generalizing message with
  | zero => rw [Nat.le_zero.mp h, replicate_zero, append_nil]; rfl
  | succ turns ih =>
    rw [pushZeros]
    split
    · have hlength : (message ++ [0]).length = message.length + 1 := length_append
      have hturns : (120 - (message ++ [0]).length % 64) % 64 + 1 =
          (120 - message.length % 64) % 64 := by omega
      rw [ih (by omega), ← hturns, replicate_succ, append_assoc, singleton_append]
    · rw [show (120 - message.length % 64) % 64 = 0 by omega, replicate_zero,
        append_nil]

theorem toBits_toBeBytes (n x : ℕ) : toBits (toBeBytes n x) = bits (8 * n) x := by
  induction n with
  | zero => rfl
  | succ n ih =>
    show bits 8 (UInt8.ofNat (x / 256 ^ n)).toNat ++ toBits (toBeBytes n x) = _
    rw [ih, Nat.mul_succ, Nat.add_comm, bits_add, UInt8.toNat_ofNat', bits_mod, Nat.pow_mul]

theorem toBits_zeros (n : ℕ) : toBits (List.replicate n 0) = List.replicate (8 * n) false := by
  induction n with
  | zero => rfl
  | succ n ih =>
    show bits 8 0 ++ toBits (List.replicate n 0) = _
    rw [ih, Nat.mul_succ, Nat.add_comm, replicate_add]
    rfl

theorem padded_eq (bytes : Bytes) : toBits (padded bytes) = pad (toBits bytes) := by
  have hlength : (bytes ++ [0x80]).length = bytes.length + 1 := length_append
  have hzeros : zeros (8 * bytes.length) =
      7 + 8 * ((120 - (bytes ++ [0x80]).length % 64) % 64) := by
    unfold zeros
    omega
  have hmark : toBits [0x80] = true :: List.replicate 7 false := by decide
  unfold padded pad
  rw [pushZeros_eq (by omega), toBits_append, toBits_append, toBits_append, toBits_zeros,
    toBits_toBeBytes, bits_mod, length_toBits, hzeros, hmark, replicate_add,
    Nat.mul_comm bytes.length]
  simp only [append_assoc, cons_append]

/-! ## One block -/

theorem k_eq : k.map UInt32.toBitVec = constants := by decide +kernel

theorem initial_eq : initial.map UInt32.toBitVec = Fips180.initial := by decide +kernel

variable {block : Bytes}

/-- A turn writes the standard's word over the words before it. -/
theorem getD_fill {w : List UInt32} {i : ℕ} (h : i < w.length) (j : ℕ) :
    ((fill w i).getD j 0).toBitVec = if j = i then
      smallSigma1 (w.getD (i - 2) 0).toBitVec + (w.getD (i - 7) 0).toBitVec +
        smallSigma0 (w.getD (i - 15) 0).toBitVec + (w.getD (i - 16) 0).toBitVec
      else (w.getD j 0).toBitVec := by
  unfold fill
  dsimp only
  rw [List.getD_eq_getElem?_getD, List.getElem?_set]
  by_cases heq : j = i
  · rw [if_pos heq.symm, if_pos h, if_pos heq, Option.getD_some]
    simp only [smallSigma0, smallSigma1, rotateRight, UInt32.toBitVec_add,
      UInt32.toBitVec_xor, UInt32.toBitVec_shiftRight]
    ac_rfl
  · rw [if_neg (Ne.symm heq), if_neg heq, List.getD_eq_getElem?_getD]

theorem words_eq {i : ℕ} (hi : i < 64) :
    ((words block).getD i 0).toBitVec = schedule (toBits block) i := by
  have hfill : ∀ n ≤ 48, ∃ w, (List.range' 16 n).foldl fill
      ((List.range 16).map (fun i => fromBeBytes ((block.drop (4 * i)).take 4)) ++
        List.replicate 48 0) = w ∧ w.length = 64 ∧
      ∀ i < 16 + n, (w.getD i 0).toBitVec = schedule (toBits block) i := by
    intro n hn
    induction n with
    | zero =>
      refine ⟨_, rfl, by simp, fun i hi => ?_⟩
      have hword : toWord (((toBits block).drop (32 * i)).take 32) =
          (fromBeBytes ((block.drop (4 * i)).take 4)).toBitVec := by
        rw [show 32 * i = 8 * (4 * i) by omega, drop_toBits]
        exact (congrArg toWord (take_toBits 4 _)).trans (toWord_toBits _)
      rw [schedule, if_pos hi, hword, List.range'_zero, foldl_nil,
        List.getD_eq_getElem?_getD, List.getElem?_append_left (by simpa using hi),
        List.getElem?_map, List.getElem?_range hi]
      rfl
    | succ n ih =>
      obtain ⟨w, heq, hlength, hw⟩ := ih (by omega)
      refine ⟨_, rfl, ?_, fun i hi => ?_⟩
      · rw [List.range'_1_concat, foldl_append, heq]
        exact length_set.trans hlength
      · rw [List.range'_1_concat, foldl_append, heq, foldl_cons, foldl_nil,
          getD_fill (by omega)]
        split
        · rename_i hlast
          subst hlast
          rw [hw _ (by omega), hw _ (by omega), hw _ (by omega), hw _ (by omega),
            schedule.eq_def _ (16 + n), if_neg (by omega)]
        · exact hw i (by omega)
  obtain ⟨w, heq, -, hw⟩ := hfill 48 le_rfl
  rw [words, heq]
  exact hw i hi

theorem turn_eq {i : ℕ} (hi : i < 64) (s : Eight UInt32) :
    (turn (words block) s i).map UInt32.toBitVec =
      Fips180.round (toBits block) (s.map UInt32.toBitVec) i := by
  have hk : Fips180.constants.getD i 0 = (k.getD i 0).toBitVec := by
    rw [← k_eq, List.getD_eq_getElem?_getD, List.getD_eq_getElem?_getD, List.getElem?_map]
    cases k[i]? <;> rfl
  unfold turn Fips180.round
  rw [hk, ← words_eq hi]
  rfl

theorem compress_eq (s : Eight UInt32) (block : Bytes) :
    (compress s block).map UInt32.toBitVec = hashBlock (s.map UInt32.toBitVec) (toBits block) := by
  have hturns : ∀ n ≤ 64, ((List.range n).foldl (turn (words block)) s).map UInt32.toBitVec =
      (List.range n).foldl (round (toBits block)) (s.map UInt32.toBitVec) := by
    intro n hn
    induction n with
    | zero => rfl
    | succ n ih =>
      rw [List.range_succ, foldl_append, foldl_append, ← ih (by omega)]
      exact turn_eq (by omega) _
  unfold compress hashBlock
  rw [← hturns 64 le_rfl]
  simp only [Eight.map, UInt32.toBitVec_add, BitVec.add_comm]

/-! ## The digest -/

theorem hex_standard (bytes : Bytes) :
    hex bytes = String.ofList ((digest (toBits bytes)).toList.flatMap hexWord) := by
  have hstate : (state bytes).map UInt32.toBitVec = digest (toBits bytes) := by
    unfold state digest
    rw [← padded_eq, pieces_toBits, List.foldl_map, ← initial_eq]
    exact (List.foldl_hom (Eight.map UInt32.toBitVec) fun s block => (compress_eq s block).symm).symm
  rw [← hstate]
  rfl

end Stado.Kompilator.Sha256
