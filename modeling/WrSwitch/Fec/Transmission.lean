import Mathlib.Data.List.TakeWhile
import WrSwitch.Fec.Packets

/-!
# What the decoder reads of an encoded packet

The packets that `fec_encode` makes of one message, and which of them `fec_decode` can read: those
without a zero byte before their last one.
-/
namespace WrSwitch.Fec

/-! ### Strings with their final zero -/

/-- No byte but perhaps the last is 0. -/
def NulFree (p : List Byte) : Prop := ∀ b ∈ p.dropLast, b ≠ 0

instance NulFree.decidable (p : List Byte) : Decidable (NulFree p) :=
  inferInstanceAs (Decidable (∀ b ∈ p.dropLast, b ≠ 0))

private theorem cString_zero (p : List Byte) : cString (0 :: p) = [] := rfl

private theorem cString_cons {b : Byte} (nonzero : b ≠ 0) (p : List Byte) :
    cString (b :: p) = b :: cString p := List.takeWhile_cons_of_pos (decide_eq_true nonzero)

private theorem cString_start (p : List Byte) : cString p <+: p := List.takeWhile_prefix _

/-- The string of a packet, with the 0 that ends it, is a part of the packet. -/
theorem take_append_zero (p : List Byte) :
    (p ++ [0]).take ((cString p).length + 1) = cString p ++ [0] := by
  induction p with
  | nil => rfl
  | cons b p ih =>
    by_cases zero : b = 0
    · rw [zero, cString_zero]
      rfl
    · rw [cString_cons zero, List.length_cons, List.cons_append, List.take_succ_cons, ih,
        List.cons_append]

private theorem nulFree_iff (p : List Byte) :
    NulFree p ↔ p.length ≤ (cString p).length + 1 := by
  induction p with
  | nil => simp [NulFree]
  | cons b p ih =>
    cases p with
    | nil => simp [NulFree]
    | cons c p =>
      rw [NulFree, List.dropLast_cons_cons, List.forall_mem_cons]
      by_cases zero : b = 0
      · rw [zero, cString_zero]
        simp
      · rw [cString_cons zero, List.length_cons (a := b), List.length_cons (a := b),
          Nat.add_le_add_iff_right, ← ih, and_iff_right zero]
        rfl

/-- The string reads as the packet does, up to the 0 that ends it. -/
theorem readBytes_cString (p : List Byte) {pos n : Nat} (inside : pos + n ≤ p.length) :
    readBytes (cString p) pos n =
      if pos + n ≤ (cString p).length + 1 then some ((p.drop pos).take n) else none := by
  rw [readBytes]
  split
  next short =>
    rw [← take_append_zero, List.drop_take, List.take_take, Nat.min_eq_left (by omega),
      List.drop_append_of_le_length (by omega),
      List.take_append_of_le_length (by rw [List.length_drop]; omega)]
  next => rfl

private theorem NulFree.readBytes_eq {p : List Byte} (free : NulFree p) {pos n : Nat}
    (inside : pos + n ≤ p.length) :
    readBytes (cString p) pos n = some ((p.drop pos).take n) := by
  have length := (nulFree_iff p).mp free
  rw [readBytes_cString p inside, if_pos (by omega)]

/-- Before its last byte a packet is in the string. -/
theorem NulFree.take_drop {p : List Byte} (free : NulFree p) {pos n : Nat}
    (inside : pos + n < p.length) :
    ((cString p).drop pos).take n = (p.drop pos).take n := by
  have length := (nulFree_iff p).mp free
  rw [List.prefix_iff_eq_take.mp (cString_start p), List.drop_take,
    List.take_take, Nat.min_eq_left (by omega)]

/-! ### The header -/

/-- The fields of a header lie side by side. -/
theorem packHeader_eq {msgID msize fragLen index : Nat} (size : msize < 4096)
    (length : fragLen < 4096) (small : index < 256) :
    packHeader msgID msize fragLen index =
      msgID * 2 ^ 32 + (msize * 2 ^ 20 + (fragLen * 2 ^ 8 + index)) := by
  rw [packHeader, Nat.or_assoc, Nat.or_assoc, ← Nat.shiftLeft_add_eq_or_of_lt (i := 8) small,
    Nat.shiftLeft_eq fragLen, ← Nat.shiftLeft_add_eq_or_of_lt (i := 20) (by omega),
    Nat.shiftLeft_eq msize, ← Nat.shiftLeft_add_eq_or_of_lt (i := 32) (by omega),
    Nat.shiftLeft_eq msgID]

/-- The decoder has the first byte of the message id replaced. -/
theorem unpack_headerBytes (header : Nat) :
    (headerBytes header).foldl (fun header b => header <<< 8 ||| b.toNat) 0 =
      0x78 * 2 ^ 56 + header % 2 ^ 56 := by
  have push (h : Nat) (b : Byte) : h <<< 8 ||| b.toNat = h * 256 + b.toNat := by
    rw [← Nat.shiftLeft_add_eq_or_of_lt b.isLt, Nat.shiftLeft_eq]
  have bytes : headerBytes header = [0x78,
      BitVec.ofNat 8 (header / 256 / 256 / 256 / 256 / 256 / 256),
      BitVec.ofNat 8 (header / 256 / 256 / 256 / 256 / 256),
      BitVec.ofNat 8 (header / 256 / 256 / 256 / 256), BitVec.ofNat 8 (header / 256 / 256 / 256),
      BitVec.ofNat 8 (header / 256 / 256), BitVec.ofNat 8 (header / 256),
      BitVec.ofNat 8 header] := by
    simp [headerBytes, List.range_succ, Nat.shiftRight_eq_div_pow, Nat.div_div_eq_div_mul]
  have first : BitVec.toNat (0x78 : Byte) = 0x78 := rfl
  rw [bytes]
  simp only [push, List.foldl_cons, List.foldl_nil, BitVec.toNat_ofNat, first]
  omega

/-- The fields as `fec_decode` takes them from the header. -/
theorem unpack_packHeader (msgID : Nat) {msize fragLen index : Nat} (size : msize < 4096)
    (length : fragLen < 4096) (small : index < 256) :
    let header := (headerBytes (packHeader msgID msize fragLen index)).foldl
      (fun header b => header <<< 8 ||| b.toNat) 0
    header >>> 32 = 0x78000000 + msgID % 2 ^ 24 ∧ (header >>> 20) % 4096 = msize ∧
      (header >>> 8) % 4096 = fragLen ∧ header % 256 = index := by
  simp only [unpack_headerBytes, packHeader_eq size length small, Nat.shiftRight_eq_div_pow]
  omega

private theorem length_headerBytes (header : Nat) : (headerBytes header).length = 8 := by
  simp [headerBytes]

/-! ### Check bits -/

private theorem checkBits_self (b : Byte) : checkBits b b = 0 := by
  simp [checkBits, List.range_succ]

private theorem length_withParity (msg : List Byte) :
    (withParity msg).length = msg.length + msg.length / 8 := by
  simp [withParity]

section

variable {msg : List Byte} {chunks : Nat} (whole : msg.length = 8 * chunks)
include whole

private theorem withParity_chunk {i : Nat} (inside : i < chunks) :
    ((withParity msg).drop (i * 8)).take 8 = (msg.drop (i * 8)).take 8 := by
  rw [withParity, List.drop_append_of_le_length (by omega),
    List.take_append_of_le_length (by rw [List.length_drop]; omega)]

private theorem withParity_parity {i : Nat} (inside : i < chunks) :
    ((withParity msg).drop (chunks * 8 + i)).take 1 =
      [hammingEncode ((msg.drop (i * 8)).take 8)] := by
  have count : msg.length / 8 = chunks := by omega
  have here : chunks * 8 + i = msg.length + i := by omega
  rw [withParity, here, List.drop_length_add_append, count,
    List.drop_eq_getElem_cons (by simpa using inside)]
  simp

/-- In a packet that was not damaged the decoder leaves the string, or finds no error. -/
theorem hammingDecode_packet {i : Nat} (inside : i < chunks) :
    hammingDecode (cString (withParity msg)) (i * 8) (chunks * 8 + i) =
      if chunks * 8 + i ≤ (cString (withParity msg)).length then some .correct else none := by
  have length := length_withParity msg
  rw [hammingDecode, readBytes_cString _ (by omega), readBytes_cString _ (by omega),
    withParity_chunk whole inside, withParity_parity whole inside]
  by_cases readable : chunks * 8 + i ≤ (cString (withParity msg)).length
  · rw [if_pos (by omega), if_pos (by omega), if_pos readable]
    simp [hammingEncode, checkBits_self]
  · rw [if_neg (by omega : ¬chunks * 8 + i + 1 ≤ _), if_neg readable]
    split <;> rfl

private theorem correctChunks_packet (crc1 : BitVec 16) (is : List Nat)
    (inside : ∀ i ∈ is, i < chunks) :
    correctChunks crc1 chunks is (cString (withParity msg)) =
      if ∀ i ∈ is, chunks * 8 + i ≤ (cString (withParity msg)).length then
        some (some (cString (withParity msg)))
      else none := by
  induction is with
  | nil => rfl
  | cons i is ih =>
    rw [List.forall_mem_cons] at inside
    rw [correctChunks, hammingDecode_packet whole inside.1]
    by_cases readable : chunks * 8 + i ≤ (cString (withParity msg)).length
    · rw [if_pos readable]
      refine (ih inside.2).trans (if_congr ?_ rfl rfl)
      rw [List.forall_mem_cons, and_iff_right readable]
    · rw [if_neg readable, if_neg fun all => readable (all i List.mem_cons_self)]
      rfl

end

/-! ### Packets -/

theorem length_resize (n : Nat) (s : List Byte) : (resize n s).length = n := by
  rw [resize, List.length_append, List.length_take, List.length_replicate]
  omega

/-- A message that `RS_code` does not refuse fits the header. -/
theorem sizes {msize : Nat} (nonempty : 0 < msize) (accepted : divsize msize < maxFragSize) :
    msize < 4096 ∧ 0 < divsize msize ∧ divsize msize ≤ rsinsize msize ∧
      rsinsize msize = 8 * (rsinsize msize / 8) ∧ 0 < rsinsize msize / 8 ∧
      fragLen msize = 9 * (rsinsize msize / 8 + 1) ∧ fragLen msize < 4096 := by
  simp only [fragLen, rsinsize, divsize, fecChopchop, maxFragSize] at *
  omega

section

variable (msgID : Nat) {msize : Nat} (fragment : List Byte) (index : Nat) (nonempty : 0 < msize)
  (accepted : divsize msize < maxFragSize) (small : index < 4)

/-- A packet's chunks are the header and its fragment, padded to whole words. -/
theorem length_packetChunks :
    (packetChunks msgID msize fragment index).length = rsinsize msize + 8 := length_resize _ _

/-- The first chunk is the header. -/
theorem take_packetChunks :
    (packetChunks msgID msize fragment index).take 8 =
      headerBytes (packHeader msgID msize (fragLen msize) index) := by
  have header := length_headerBytes (packHeader msgID msize (fragLen msize) index)
  rw [packetChunks, resize, List.take_append_of_le_length (by
      rw [List.length_take, List.length_append]; omega),
    List.take_take, Nat.min_eq_left (by omega), List.take_append_of_le_length (by omega),
    List.take_of_length_le (by omega)]

/-- The data of a packet is its fragment, with zeros behind it. -/
theorem drop_packetChunks (covers : divsize msize ≤ rsinsize msize) :
    (packetChunks msgID msize fragment index).drop 8 =
      resize (rsinsize msize) (fragment.take (divsize msize)) := by
  have header := length_headerBytes (packHeader msgID msize (fragLen msize) index)
  rw [packetChunks, resize, resize, List.take_append, header, List.append_assoc,
    List.take_of_length_le (by omega), List.drop_append_of_le_length (by omega),
    List.drop_of_length_le (by omega), List.nil_append, List.length_append, header]
  congr 2
  omega

include nonempty accepted

/-- Every word of eight bytes gets one byte of parity. -/
theorem length_packet :
    (withParity (packetChunks msgID msize fragment index)).length =
      9 * (rsinsize msize / 8 + 1) := by
  obtain ⟨-, -, -, whole, -⟩ := sizes nonempty accepted
  rw [length_withParity, length_packetChunks]
  omega

include small

/-- A packet is read as it was written, apart from the first byte of the message id, or the decoder
leaves the string that it made of it. -/
theorem parsePacket_packet :
    parsePacket (withParity (packetChunks msgID msize fragment index)) =
      if NulFree (withParity (packetChunks msgID msize fragment index)) then
        some (some ⟨0x78000000 + msgID % 2 ^ 24, msize, index,
          resize (rsinsize msize) (fragment.take (divsize msize))⟩)
      else none := by
  obtain ⟨fits, -, covers, whole, several, length, bound⟩ := sizes nonempty accepted
  have all := length_packet msgID fragment index nonempty accepted
  have chunks : (packetChunks msgID msize fragment index).length = _ := length_packetChunks ..
  have words : (packetChunks msgID msize fragment index).length = 8 * (rsinsize msize / 8 + 1) := by
    omega
  obtain ⟨mID, size, total, position⟩ :=
    unpack_packHeader msgID fits bound (by omega : index < 256)
  have readHeader : (packetChunks msgID msize fragment index).take 8 = _ := take_packetChunks ..
  have first := withParity_chunk words (by omega : 0 < _)
  have corrected := correctChunks_packet words
  have data := drop_packetChunks msgID fragment index covers
  have shown : (withParity (packetChunks msgID msize fragment index)).drop 8 =
      (packetChunks msgID msize fragment index).drop 8 ++
        (withParity (packetChunks msgID msize fragment index)).drop (rsinsize msize + 8) := by
    rw [withParity, List.drop_append_of_le_length (by omega), ← chunks, List.drop_left]
  generalize withParity (packetChunks msgID msize fragment index) = p at *
  have count : p.length / 9 = rsinsize msize / 8 + 1 := by omega
  -- the parser takes the packet for a C string
  have string := nulFree_iff p
  rw [parsePacket, count, if_neg (by omega)]
  simp only [readBytes_cString p (show 8 + 8 ≤ p.length by omega),
    corrected _ _ fun i => List.mem_range.mp, Option.bind_eq_bind]
  by_cases free : NulFree p
  -- no byte of the packet is 0: everything is read as it was sent
  · have length := string.mp free
    have read : readBytes (cString p) 0 8 = some _ := free.readBytes_eq (by omega)
    rw [first, List.drop_zero, readHeader] at read
    have payload : ((cString p).drop 8).take ((rsinsize msize / 8 + 1 - 1) * 8) =
        resize (rsinsize msize) (fragment.take (divsize msize)) := by
      rw [free.take_drop (by omega), shown, data,
        List.take_append_of_le_length (by rw [length_resize]; omega),
        List.take_of_length_le (by rw [length_resize]; omega)]
    rw [if_pos (by omega), if_pos free]
    rw [Option.bind_some, if_pos fun i inside => by
      have := List.mem_range.mp inside
      omega]
    simp only [read, Option.bind_some, mID, size, total, position, payload]
    rw [if_neg (by rw [fecChopchop, losses]; omega)]
  · -- the 0 is met in the first bytes, or where the last parity byte is read
    rw [if_neg (c := ∀ i ∈ _, _) fun all => free (string.mpr (by
      have := all (rsinsize msize / 8) (List.mem_range.mpr (by omega))
      omega)), if_neg free]
    split <;> rfl

end

/-! ### Messages -/

/-- A message for the encoder, and its message id counter at that time. -/
structure Sent where
  message : List Byte
  counter : BitVec 32
  nonempty : 0 < message.length
  accepted : divsize message.length < maxFragSize
  deriving DecidableEq

variable {F : Type} [Field F] [DecidableEq F] (gf : Gf256 F)

private theorem missing_messageFragments (chunk : List Byte) :
    missing (messageFragments chunk) = [2, 3] := by
  simp [missing, messageFragments, fecChopchop, losses, List.range_succ]

private theorem length_messageFragments (chunk : List Byte) :
    (messageFragments chunk).length = 4 := by
  simp [messageFragments, fecChopchop, losses]

/-- The data fragments and the parity fragments of a message. -/
def Sent.words (m : Sent) : List (List Byte) :=
  (rsCode gf (divsize m.message.length) (messageFragments m.message)).getD []

def Sent.packet (m : Sent) (index : Nat) : List Byte :=
  withParity (packetChunks (m.counter + 1).toNat m.message.length
    ((m.words gf).getD index []) index)

namespace Sent

variable (m : Sent)

private theorem rsCode_eq : rsCode gf (divsize m.message.length) (messageFragments m.message) =
    some (m.words gf) := by
  obtain ⟨words, done⟩ : ∃ words,
      rsCode gf (divsize m.message.length) (messageFragments m.message) = some words :=
    ⟨_, if_pos ⟨m.accepted, by rw [length_messageFragments]; decide,
      by rw [missing_messageFragments]; rfl⟩⟩
  rw [Sent.words, done]
  rfl

/-- There are two words of data and two of parity. -/
theorem length_words : (m.words gf).length = 4 :=
  (rsCode_eq_some gf (m.rsCode_eq gf)).2.1.trans (length_messageFragments m.message)

/-- The words of a message are a word of the code. -/
theorem rsWord : RsWord gf (divsize m.message.length) (m.words gf) :=
  rsCode_completes gf (by rw [length_messageFragments]; decide) (m.rsCode_eq gf)

/-- The first two words are the halves of the message. -/
theorem words_data {k : Nat} (data : k < 2) :
    (m.words gf).getD k [] =
      ((resize (divsize m.message.length * 2) m.message).drop
        (k * divsize m.message.length)).take (divsize m.message.length) := by
  refine (rsCode_eq_some gf (m.rsCode_eq gf)).2.2.1 k _ ?_
  obtain rfl | rfl : k = 0 ∨ k = 1 := by omega
  · rfl
  · rfl

private theorem length_word {k : Nat} (inside : k < 4) :
    ((m.words gf).getD k []).length = divsize m.message.length := by
  obtain ⟨-, -, -, filled⟩ := rsCode_eq_some gf (m.rsCode_eq gf)
  by_cases data : k < 2
  · rw [m.words_data gf data, List.length_take, List.length_drop, length_resize]
    have := Nat.mul_le_mul_right (divsize m.message.length) (Nat.le_of_lt_succ data)
    omega
  · rw [filled k (by
      obtain rfl | rfl : k = 2 ∨ k = 3 := by omega
      · rfl
      · rfl), length_recovered]

/-- No other codeword has the data fragments of the message. -/
theorem words_unique {others : List (List Byte)} (length : others.length = 4)
    (lengths : ∀ k < 4, (others.getD k []).length = divsize m.message.length)
    (data : ∀ k < 2, others.getD k [] = (m.words gf).getD k [])
    (word : RsWord gf (divsize m.message.length) others) {k : Nat} (inside : k < 4) :
    (m.words gf).getD k [] = others.getD k [] := by
  have four := length_messageFragments m.message
  obtain ⟨found, done, same⟩ := rsCode_recovers gf m.accepted (by rw [four]; decide)
    (by rw [four]; decide) (by rw [missing_messageFragments]; rfl) word (length.trans four.symm)
    fun s stripeInside k w known => by
      have small := (List.getElem?_eq_some_iff.mp known).1
      have fragment := (rsCode_eq_some gf (m.rsCode_eq gf)).2.2.1 k w known
      -- the first two words are the data, the others are not known
      by_cases early : k < 2
      · rw [data k early, fragment]
      · obtain rfl | rfl : k = 2 ∨ k = 3 := by omega
        · cases known
        · cases known
  rw [m.rsCode_eq] at done
  cases done
  refine List.ext_getElem (by rw [m.length_word gf inside, lengths k inside]) fun s here here' => ?_
  rw [← List.getD_eq_getElem _ 0 here, ← List.getD_eq_getElem _ 0 here']
  exact same k (by rwa [four]) s (by rwa [lengths k inside] at here')

/-- `fec_encode` hands out the packets of the message one by one, and has no other. -/
def HandedOut : Prop :=
  ∀ e : Encoder, e.outgoingMsgID = m.counter → ∃ e' : Encoder,
    e'.outgoingMsgID = m.counter + 1 ∧
      fecEncode gf e m.message 0 = some (e', some (m.packet gf 0)) ∧
      (∀ index < 4, index ≠ 0 →
        fecEncode gf e' m.message index = some (e', some (m.packet gf index))) ∧
      fecEncode gf e' m.message 4 = some (e', none)

/-- The packets of a message are what `fec_encode` hands out. -/
theorem handedOut : m.HandedOut gf := by
  intro e counter
  have setup : fecSetup gf e m.message =
      some ⟨m.counter + 1, (List.range 4).map (m.packet gf)⟩ := by
    rw [fecSetup, m.rsCode_eq, Option.map_some, m.length_words, counter]
    rfl
  refine ⟨⟨m.counter + 1, (List.range 4).map (m.packet gf)⟩, rfl, ?_,
    fun index inside later => ?_, rfl⟩
  · rw [fecEncode, if_pos rfl, setup]
    rfl
  · rw [fecEncode, if_neg later]
    simp [Nat.ne_of_lt inside, List.getElem?_range inside]

/-- Fragments that agree with the halves make the message. -/
theorem reassemble_eq {fragments : List (List Byte)}
    (agree : ∀ k < 2, ∀ s < divsize m.message.length,
      (fragments.getD k []).getD s 0 = ((m.words gf).getD k []).getD s 0) :
    reassemble m.message.length fragments = m.message := by
  -- the decoder gives back the bytes of the two halves
  have bytes (k : Nat) (data : k < 2) :
      (List.range (divsize m.message.length)).map (fun s => (fragments.getD k []).getD s 0) =
        (m.words gf).getD k [] := by
    have length := m.length_word gf (Nat.lt_trans data (by decide : 2 < 4))
    refine List.ext_getElem (by rw [length, List.length_map, List.length_range]) fun s inside inside' => ?_
    rw [List.getElem_map, List.getElem_range, agree k data s (length ▸ inside'),
      List.getD_eq_getElem _ _ inside']
  have long : m.message.length ≤ divsize m.message.length * 2 := by
    simp only [divsize, fecChopchop]
    omega
  -- together the halves are the message with its padding
  have whole : (m.words gf).getD 0 [] ++ (m.words gf).getD 1 [] =
      resize (divsize m.message.length * 2) m.message := by
    rw [m.words_data gf (by decide), m.words_data gf (by decide), zero_mul, one_mul, List.drop_zero,
      List.take_of_length_le (l := (resize _ _).drop _)
        (by rw [List.length_drop, length_resize]; omega),
      List.take_append_drop]
  rw [reassemble, show List.range (fecChopchop m.message.length) = [0, 1] from rfl,
    List.flatMap_cons, List.flatMap_cons, List.flatMap_nil, List.append_nil, bytes 0 (by decide),
    bytes 1 (by decide), whole, resize, List.take_of_length_le long, List.take_left]

end Sent

end WrSwitch.Fec
