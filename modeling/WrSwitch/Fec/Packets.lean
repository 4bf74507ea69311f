import WrSwitch.Fec.ReedSolomon

/-!
# Packets

`hamming.cpp`, `crcSlow` and `fec.cpp`. An outcome `none` stands for an exception, a failed
assertion or a read of memory that the program does not own.
-/
namespace WrSwitch.Fec

/-! ### Check bits -/

/-- `pbits0` -/
def pbits0 : List (List Byte) :=
  [[0x5B, 0xAD, 0xAA, 0x56, 0x55, 0x55, 0x55, 0xAB],
   [0x6D, 0x36, 0x33, 0x99, 0x99, 0x99, 0xD9, 0x0C],
   [0x8E, 0xC7, 0xC3, 0xE3, 0xE1, 0xE1, 0xE1, 0xF1],
   [0xF0, 0x07, 0xFC, 0xE3, 0x1F, 0xE0, 0x1F, 0xFF],
   [0x00, 0xF8, 0xFF, 0x03, 0xE0, 0xFF, 0x1F, 0x00],
   [0x00, 0x00, 0x00, 0xFC, 0xFF, 0xFF, 0xFF, 0x01],
   [0x00, 0x00, 0x00, 0xE0, 0xFF, 0xFF, 0xFF, 0xFF]]

/-- The number of ones of `bitset<8>`. -/
def count (b : Byte) : Nat := (List.range 8).countP fun i => b.getLsbD i

/-- The parity byte that both sides compute of the eight bytes of a chunk. -/
def parityByte (word : List Byte) : Byte :=
  let checks := (List.range 7).foldl
    (fun parity i => (List.range 8).foldl
      (fun parity j =>
        parity ^^^ if count (word.getD j 0 &&& (pbits0.getD i []).getD j 0) % 2 = 1 then
          (1 : Byte) <<< (i + 1) else 0)
      parity)
    0
  -- the lowest bit is the parity of the chunk itself
  checks ^^^ if ((List.range 8).map fun j => count (word.getD j 0)).sum % 2 = 1 then 1 else 0

/-- `hamming_encode` -/
def hammingEncode (frame : List Byte) : Byte := parityByte frame

/-- `postionInfraeme`; where none of its branches is taken the result is not initialised. -/
def postionInfraeme (postion : Nat) : Option Nat :=
  if 4 < postion ∧ postion ≤ 7 then some (postion - 3)
  else if 8 < postion ∧ postion ≤ 15 then some (postion - 4)
  else if 16 < postion ∧ postion ≤ 31 then some (postion - 5)
  else if 32 < postion then some (postion - 6)
  else none

/-- The results 0, 1 and 2 of `hamming_decode`. -/
inductive DecodeResult where
  | correct
  | single (position : Option Nat)
  | double
  deriving DecidableEq

/-- The string that C++ makes of a `const char*`: it ends before the first 0. -/
def cString (chunk : List Byte) : List Byte := chunk.takeWhile (· ≠ 0)

/-- The `n` bytes of a string from `pos` on. Behind its last byte a string has a 0. -/
def readBytes (e : List Byte) (pos n : Nat) : Option (List Byte) :=
  if pos + n ≤ e.length + 1 then some (((e ++ [0]).drop pos).take n) else none

/-- `checkBitResult`, from the check bits 1 to 6. -/
def checkBits (parity received : Byte) : Byte :=
  (List.range 6).foldl
    (fun check i => check ^^^ (((parity >>> (i + 1)) ^^^ (received >>> (i + 1))) &&& 1) <<< i) 0

/-- `hamming_decode` -/
def hammingDecode (frame : List Byte) (ichunk chunks : Nat) : Option DecodeResult := do
  let word ← readBytes frame ichunk 8
  let received ← readBytes frame chunks 1
  let parity := parityByte word
  let check := checkBits parity (received.getD 0 0)
  if check = 0 then some .correct
  else if parity &&& 1 = received.getD 0 0 &&& 1 then some .double
  else some (.single (postionInfraeme check.toNat))

/-- `crcSlow` -/
def crcSlow (message : List Byte) : BitVec 16 :=
  message.foldl
    (fun remainder byte =>
      (List.range 8).foldl
        (fun remainder _ =>
          if remainder.getLsbD 15 then (remainder <<< 1) ^^^ 0x1021 else remainder <<< 1)
        (remainder ^^^ (byte.setWidth 16 : BitVec 16) <<< (8 : Nat)))
    0xFFFF

/-! ### Encoder -/

/-- `fec_chopchop` -/
def fecChopchop (_msize : Nat) : Nat := 2

def divsize (msize : Nat) : Nat := (msize + fecChopchop msize - 1) / fecChopchop msize

def rsinsize (msize : Nat) : Nat := (divsize msize + 7) / 8 * 8

def fragLen (msize : Nat) : Nat := (rsinsize msize + 8) / 8 * 9

/-- `std::string::resize` -/
def resize (n : Nat) (s : List Byte) : List Byte := s.take n ++ List.replicate (n - s.length) 0

def packHeader (msgID msize fragLen index : Nat) : Nat :=
  msgID <<< 32 ||| msize <<< 20 ||| fragLen <<< 8 ||| index

/-- The loop over the header leaves the first of its bytes as it was, an `x`. -/
def headerBytes (header : Nat) : List Byte :=
  0x78 :: (List.range 7).map fun j => BitVec.ofNat 8 (header >>> (8 * (6 - j)))

/-- The chunks of a packet before their parity bytes. -/
def packetChunks (msgID msize : Nat) (fragment : List Byte) (index : Nat) : List Byte :=
  resize (rsinsize msize + 8)
    (headerBytes (packHeader msgID msize (fragLen msize) index) ++ fragment.take (divsize msize))

def withParity (msg : List Byte) : List Byte :=
  msg ++ (List.range (msg.length / 8)).map fun j => hammingEncode ((msg.drop (j * 8)).take 8)

structure Encoder where
  outgoingMsgID : BitVec 32
  outputMessages : List (List Byte)

variable {F : Type} [Field F] [DecidableEq F] (gf : Gf256 F)

/-- The data fragments of a message, and no parity fragments yet. -/
def messageFragments (chunk : List Byte) : List (Option (List Byte)) :=
  let size := divsize chunk.length
  let buf := resize (size * fecChopchop chunk.length) chunk
  (List.range (fecChopchop chunk.length)).map (fun i => some ((buf.drop (i * size)).take size)) ++
    List.replicate losses none

/-- `fec_setup` -/
def fecSetup (e : Encoder) (chunk : List Byte) : Option Encoder :=
  let msgID := e.outgoingMsgID + 1
  (rsCode gf (divsize chunk.length) (messageFragments chunk)).map fun fragments =>
    { outgoingMsgID := msgID
      outputMessages := (List.range fragments.length).map fun i =>
        withParity (packetChunks msgID.toNat chunk.length (fragments.getD i []) i) }

/-- `fec_encode` -/
def fecEncode (e : Encoder) (chunk : List Byte) (index : Nat) :
    Option (Encoder × Option (List Byte)) := do
  let e ← if index = 0 then fecSetup gf e chunk else some e
  if index = e.outputMessages.length then some (e, none)
  else e.outputMessages[index]?.map fun packet => (e, some packet)

/-! ### Decoder -/

def maxOutputMessages : Nat := 1024

/-- `struct State` -/
structure State where
  msize : Nat
  divsize : Nat
  fragmentsReceived : Nat
  received : List (List Byte)

structure Decoder where
  cache : Nat → Option State
  inCache : List Nat

def Decoder.initial : Decoder where
  cache := fun _ => none
  inCache := []

/-- The fields of an accepted packet. -/
structure Packet where
  mID : Nat
  msize : Nat
  index : Nat
  data : List Byte
  deriving DecidableEq

/-- The correction of one bit of chunk `i`. It is made only where two CRCs agree, of the bytes 8 to
15 before the loop and of the bytes 12 to 19 now; else the frame is lost (`some none`). -/
def fixChunk (crc1 : BitVec 16) (i : Nat) (position : Option Nat) (eChunk : List Byte) :
    Option (Option (List Byte)) := do
  let crc2 := crcSlow (← readBytes eChunk 12 8)
  if crc1 = crc2 then
    let position ← position
    -- the first bit of a byte would be shifted by -1
    if position % 8 = 0 ∨ eChunk.length ≤ i * 8 + position / 8 then none
    else some (some (eChunk.modify (i * 8 + position / 8) (· ^^^ 1 <<< (position % 8 - 1))))
  else some none

/-- The loop over the chunks. It stops (`some none`) where there are too many errors. -/
def correctChunks (crc1 : BitVec 16) (chunks : Nat) :
    List Nat → List Byte → Option (Option (List Byte))
  | [], eChunk => some (some eChunk)
  | i :: rest, eChunk => do
    match ← hammingDecode eChunk (i * 8) (chunks * 8 + i) with
    | .correct => correctChunks crc1 chunks rest eChunk
    | .double => some none
    | .single position =>
      match ← fixChunk crc1 i position eChunk with
      | none => some none
      | some eChunk => correctChunks crc1 chunks rest eChunk

/-- The first part of `fec_decode`: the packet, or that it is rejected. -/
def parsePacket (chunk : List Byte) : Option (Option Packet) :=
  let chunks := chunk.length / 9
  if chunk.length % 9 ≠ 0 ∨ chunk.length < 18 then some none
  else do
    let eChunk := cString chunk
    let crc1 := crcSlow (← readBytes eChunk 8 8)
    match ← correctChunks crc1 chunks (List.range chunks) eChunk with
    | none => some none
    | some eChunk =>
      let header := (← readBytes eChunk 0 8).foldl (fun header b => header <<< 8 ||| b.toNat) 0
      let msize := (header >>> 20) % 4096
      let index := header % 256
      if (header >>> 8) % 4096 ≠ chunk.length ∨ (header >>> 8) % 4096 ≠ fragLen msize ∨
          fecChopchop msize + losses < index then some none
      else
        some (some ⟨header >>> 32, msize, index, (eChunk.drop 8).take ((chunks - 1) * 8)⟩)

/-- Drops the oldest message of a full cache. -/
def Decoder.evict (d : Decoder) : Option Decoder :=
  if maxOutputMessages < d.inCache.length then
    match d.inCache with
    | [] => none
    | kill :: rest =>
      if (d.cache kill).isSome then some ⟨Function.update d.cache kill none, rest⟩ else none
  else some d

def newState (msize : Nat) : State where
  msize := msize
  divsize := divsize msize
  fragmentsReceived := 0
  received := List.replicate (fecChopchop msize + losses) []

/-- Finds the message of a packet, or enters it. -/
def Decoder.find (d : Decoder) (p : Packet) : Option (Decoder × State) :=
  match d.cache p.mID with
  | some state => some (d, state)
  | none => d.evict.map fun d =>
    (⟨Function.update d.cache p.mID (some (newState p.msize)), d.inCache ++ [p.mID]⟩,
      newState p.msize)

/-- `reassemble the packet` -/
def reassemble (msize : Nat) (fragments : List (List Byte)) : List Byte :=
  ((List.range (fecChopchop msize)).flatMap fun i =>
    (List.range (divsize msize)).map fun j => (fragments.getD i []).getD j 0).take msize

def fragmentsOf (received : List (List Byte)) : List (Option (List Byte)) :=
  received.map fun fragment => if fragment = [] then none else some fragment

/-- `Grab the data portion of the buffer` -/
def State.enter (state : State) (p : Packet) : State :=
  { state with
    received := state.received.set p.index p.data
    fragmentsReceived := state.fragmentsReceived + 1 }

/-- What `fec_decode` does with a packet of the message. -/
def State.receive (state : State) (p : Packet) : Option (State × Option (List Byte)) :=
  if state.msize ≠ p.msize then some (state, none)
  else
    match state.received[p.index]? with
    | none => none
    | some slot =>
      if slot ≠ [] then some (state, none)
      else if (state.enter p).fragmentsReceived ≠ fecChopchop p.msize then
        some (state.enter p, none)
      else
        (rsCode gf (Fec.divsize p.msize) (fragmentsOf (state.enter p).received)).map
          fun fragments => (state.enter p, some (reassemble p.msize fragments))

/-- The second part of `fec_decode`. -/
def Decoder.accept (d : Decoder) (p : Packet) : Option (Decoder × Option (List Byte)) :=
  match d.find p with
  | none => none
  | some (d, state) => (state.receive gf p).map fun done =>
    (⟨Function.update d.cache p.mID (some done.1), d.inCache⟩, done.2)

/-- `fec_decode` -/
def fecDecode (d : Decoder) (chunk : List Byte) : Option (Decoder × Option (List Byte)) :=
  match parsePacket chunk with
  | none => none
  | some none => some (d, none)
  | some (some p) => d.accept gf p

end WrSwitch.Fec
