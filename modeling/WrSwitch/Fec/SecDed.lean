import WrSwitch.Fec.Packets

/-!
# Flipped bits of a chunk

A chunk is eight bytes and their check byte. The bits 0 to 63 are those of the bytes and the bits
64 to 71 those of the check byte. Everything that `hamming_decode` finds out depends on the
syndrome, and each flipped bit adds its own column to that.
-/
namespace WrSwitch.Fec

/-! ### Chunks -/

/-- Eight bytes and their check byte. -/
structure Chunk where
  word : List Byte
  check : Byte
  bytes : word.length = 8

def Chunk.encoded (word : List Byte) (bytes : word.length = 8) : Chunk :=
  ⟨word, hammingEncode word, bytes⟩

/-- `(char)(0x1 << k)` -/
def bitMask (k : Nat) : Byte := BitVec.ofNat 8 (1 <<< k)

/-- The eight bytes with bit `n` of them flipped. -/
def flipWord (word : List Byte) (n : Nat) : List Byte :=
  word.modify (n / 8) (· ^^^ bitMask (n % 8))

def Chunk.flip (c : Chunk) (n : Nat) : Chunk :=
  if n < 64 then ⟨flipWord c.word n, c.check, by simp [flipWord, c.bytes]⟩
  else ⟨c.word, c.check ^^^ bitMask (n - 64), c.bytes⟩

/-- `hamming_decode` of a chunk. -/
def Chunk.decode (c : Chunk) : Option DecodeResult := hammingDecode (c.word ++ [c.check]) 0 8

/-- The string of the decoder has the chunk in place `i`, where `hamming_decode` looks for it. What
else is in the string does not matter. -/
structure Holds (eChunk : List Byte) (chunks i : Nat) (c : Chunk) : Prop where
  inside : i < chunks
  word : readBytes eChunk (i * 8) 8 = some c.word
  check : readBytes eChunk (chunks * 8 + i) 1 = some [c.check]

instance (eChunk : List Byte) (chunks i : Nat) (c : Chunk) : Decidable (Holds eChunk chunks i c) :=
  decidable_of_iff (i < chunks ∧ readBytes eChunk (i * 8) 8 = some c.word ∧
      readBytes eChunk (chunks * 8 + i) 1 = some [c.check])
    ⟨fun ⟨inside, word, check⟩ => ⟨inside, word, check⟩,
      fun holds => ⟨holds.inside, holds.word, holds.check⟩⟩

/-- Single error correction and double error detection, for the bits of chunk `i` flipped on the
way, where the loop of `fec_decode` comes to the chunk. -/
def SecDed (crc1 : BitVec 16) (chunks i : Nat) (eChunk word : List Byte) (flips : List Nat) : Prop :=
  let decoded := hammingDecode eChunk (i * 8) (chunks * 8 + i)
  match flips with
  | [] => decoded = some .correct
  | [_] => ∃ position fixed, decoded = some (.single position) ∧
      fixChunk crc1 i position eChunk = some (some fixed) ∧ readBytes fixed (i * 8) 8 = some word
  | _ => decoded = some .double

/-- What the loop of `fec_decode` makes of a chunk then: it goes on with the word, or it stops. -/
theorem correctChunks_secDed {crc1 : BitVec 16} {chunks i : Nat} {eChunk word : List Byte}
    {flips : List Nat} (secDed : SecDed crc1 chunks i eChunk word flips) (rest : List Nat) :
    match flips with
    | [] => correctChunks crc1 chunks (i :: rest) eChunk = correctChunks crc1 chunks rest eChunk
    | [_] => ∃ fixed, readBytes fixed (i * 8) 8 = some word ∧
        correctChunks crc1 chunks (i :: rest) eChunk = correctChunks crc1 chunks rest fixed
    | _ => correctChunks crc1 chunks (i :: rest) eChunk = some none := by
  match flips with
  | [] =>
    change hammingDecode eChunk (i * 8) (chunks * 8 + i) = _ at secDed
    dsimp only
    rw [correctChunks, secDed]
    rfl
  | [_] =>
    obtain ⟨position, fixed, single, fixes, restored⟩ := secDed
    refine ⟨fixed, restored, ?_⟩
    rw [correctChunks, single]
    simp only [Option.bind_eq_bind, Option.bind_some, fixes]
  | _ :: _ :: _ =>
    change hammingDecode eChunk (i * 8) (chunks * 8 + i) = _ at secDed
    dsimp only
    rw [correctChunks, secDed]
    rfl

/-! ### The syndrome -/

def Chunk.syndrome (c : Chunk) : Byte := parityByte c.word ^^^ c.check

/-- The result of `hamming_decode` in terms of the syndrome. -/
def resultOf (syndrome : Byte) : DecodeResult :=
  if checkBits syndrome 0 = 0 then .correct
  else if syndrome &&& 1 = 0 then .double
  else .single (postionInfraeme (checkBits syndrome 0).toNat)

private theorem checkBits_eq_syndrome (parity received : Byte) :
    checkBits parity received = checkBits (parity ^^^ received) 0 := by
  unfold checkBits
  congr 1
  funext check i
  have unsent : (0 : Byte) >>> (i + 1) = 0 := BitVec.zero_ushiftRight
  have difference := BitVec.ushiftRight_xor_distrib parity received (i + 1)
  rw [unsent, difference]
  simp

private theorem xor_and_distrib (a b mask : Byte) :
    (a ^^^ b) &&& mask = (a &&& mask) ^^^ (b &&& mask) := by
  ext i inside
  simp only [BitVec.getElem_and, BitVec.getElem_xor]
  cases a[i] <;> cases b[i] <;> simp

private theorem masked_eq_iff (a b mask : Byte) :
    (a ^^^ b) &&& mask = 0 ↔ a &&& mask = b &&& mask := by
  rw [xor_and_distrib]
  exact BitVec.xor_eq_zero_iff

private theorem readBytes_word (c : Chunk) : readBytes (c.word ++ [c.check]) 0 8 = some c.word := by
  have inside : 0 + 8 ≤ (c.word ++ [c.check]).length + 1 := by simp [c.bytes]
  rw [readBytes, if_pos inside, List.drop_zero, List.append_assoc,
    List.take_left' c.bytes]

private theorem readBytes_check (c : Chunk) :
    readBytes (c.word ++ [c.check]) 8 1 = some [c.check] := by
  have inside : 8 + 1 ≤ (c.word ++ [c.check]).length + 1 := by simp [c.bytes]
  rw [readBytes, if_pos inside, List.append_assoc, List.drop_left' c.bytes]
  rfl

/-- The decoder sees nothing of a chunk but its syndrome. -/
theorem decode_eq_resultOf (c : Chunk) : c.decode = some (resultOf c.syndrome) := by
  have bits := checkBits_eq_syndrome (parityByte c.word) c.check
  have parity := (masked_eq_iff (parityByte c.word) c.check 1).symm
  simp only [Chunk.decode, hammingDecode, readBytes_word, readBytes_check, Option.bind_eq_bind,
    Option.bind_some, List.getD_cons_zero, bits, parity]
  unfold resultOf Chunk.syndrome
  split_ifs <;> rfl

/-! ### Linearity -/

private theorem countP_xor_parity {α : Type} (p q : α → Bool) (xs : List α) :
    xs.countP (fun x => p x ^^ q x) % 2 = (xs.countP p + xs.countP q) % 2 := by
  induction xs with
  | nil => rfl
  | cons x xs ih =>
    simp only [List.countP_cons]
    cases p x <;> cases q x <;> simp <;> omega

private theorem count_xor (a b : Byte) : count (a ^^^ b) % 2 = (count a + count b) % 2 := by
  have bits : (fun i => (a ^^^ b).getLsbD i) = fun i => a.getLsbD i ^^ b.getLsbD i := by
    funext i
    exact BitVec.getLsbD_xor
  rw [count, bits]
  exact countP_xor_parity _ _ _

/-- A bit that is set where a number is odd. -/
theorem ite_odd_xor (m n k : Nat) (bit : Byte) (parity : k % 2 = (m + n) % 2) :
    (if k % 2 = 1 then bit else 0) =
      (if m % 2 = 1 then bit else 0) ^^^ if n % 2 = 1 then bit else 0 := by
  rcases Nat.mod_two_eq_zero_or_one m with hm | hm <;>
    rcases Nat.mod_two_eq_zero_or_one n with hn | hn <;>
    simp [hm, hn, parity, Nat.add_mod]

private theorem foldl_xor_shift {α : Type} (f : α → Byte) (start : Byte) (xs : List α) :
    xs.foldl (fun parity x => parity ^^^ f x) start =
      start ^^^ xs.foldl (fun parity x => parity ^^^ f x) 0 := by
  induction xs generalizing start with
  | nil => simp
  | cons x xs ih =>
    have first : 0 ^^^ f x = f x := BitVec.zero_xor
    rw [List.foldl_cons, List.foldl_cons, ih, ih (0 ^^^ f x), first, BitVec.xor_assoc]

private theorem xor_exchange (a b c d : Byte) : a ^^^ b ^^^ (c ^^^ d) = a ^^^ c ^^^ (b ^^^ d) := by
  rw [BitVec.xor_assoc, ← BitVec.xor_assoc b, BitVec.xor_comm b c, BitVec.xor_assoc c,
    ← BitVec.xor_assoc a]

private theorem foldl_xor_linear {α : Type} (f g h : α → Byte) (xs : List α)
    (sum : ∀ x ∈ xs, h x = f x ^^^ g x) :
    xs.foldl (fun parity x => parity ^^^ h x) 0 =
      xs.foldl (fun parity x => parity ^^^ f x) 0 ^^^
        xs.foldl (fun parity x => parity ^^^ g x) 0 := by
  induction xs with
  | nil => exact BitVec.xor_self.symm
  | cons x xs ih =>
    have rest := ih fun y member => sum y (List.mem_cons_of_mem _ member)
    rw [List.foldl_cons, List.foldl_cons, List.foldl_cons, foldl_xor_shift h,
      foldl_xor_shift f, foldl_xor_shift g, rest, sum x List.mem_cons_self]
    have first : ∀ b : Byte, 0 ^^^ b = b := fun b => BitVec.zero_xor
    rw [first, first, first]
    exact xor_exchange _ _ _ _

/-- One term of the parity byte. -/
def parityTerm (word : List Byte) (i j : Nat) : Byte :=
  if count (word.getD j 0 &&& (pbits0.getD i []).getD j 0) % 2 = 1 then (1 : Byte) <<< (i + 1)
  else 0

def wordOnes (word : List Byte) : Nat := ((List.range 8).map fun j => count (word.getD j 0)).sum

/-- The two loops of the source as sums of terms. -/
theorem parityByte_eq_terms (word : List Byte) :
    parityByte word = (List.range 7).foldl (fun parity i => parity ^^^
        (List.range 8).foldl (fun parity j => parity ^^^ parityTerm word i j) 0) 0 ^^^
      if wordOnes word % 2 = 1 then 1 else 0 := by
  have inner : (fun (parity : Byte) i => (List.range 8).foldl
      (fun parity j => parity ^^^ parityTerm word i j) parity) = fun parity i => parity ^^^
        (List.range 8).foldl (fun parity j => parity ^^^ parityTerm word i j) 0 := by
    funext parity i
    exact foldl_xor_shift _ _ _
  rw [← inner]
  rfl

private theorem sum_map_parity (f g h : Nat → Nat) (xs : List Nat)
    (sum : ∀ x ∈ xs, h x % 2 = (f x + g x) % 2) :
    (xs.map h).sum % 2 = ((xs.map f).sum + (xs.map g).sum) % 2 := by
  induction xs with
  | nil => rfl
  | cons x xs ih =>
    have head := sum x List.mem_cons_self
    have rest := ih fun y member => sum y (List.mem_cons_of_mem _ member)
    simp only [List.map_cons, List.sum_cons]
    omega

/-- The parity byte of a sum is the sum of the parity bytes. -/
theorem parityByte_linear (a b s : List Byte)
    (sum : ∀ j < 8, s.getD j 0 = a.getD j 0 ^^^ b.getD j 0) :
    parityByte s = parityByte a ^^^ parityByte b := by
  have terms : ∀ i, ∀ j ∈ List.range 8,
      parityTerm s i j = parityTerm a i j ^^^ parityTerm b i j := by
    intro i j member
    refine ite_odd_xor _ _ _ _ ?_
    rw [sum j (List.mem_range.mp member), xor_and_distrib]
    exact count_xor _ _
  have ones : wordOnes s % 2 = (wordOnes a + wordOnes b) % 2 := by
    apply sum_map_parity
    intro j member
    rw [sum j (List.mem_range.mp member)]
    exact count_xor _ _
  rw [parityByte_eq_terms, parityByte_eq_terms a, parityByte_eq_terms b,
    foldl_xor_linear _ _ _ (List.range 7) fun i _ => foldl_xor_linear _ _ _ _ (terms i),
    ite_odd_xor _ _ _ _ ones]
  exact xor_exchange _ _ _ _

/-! ### Columns -/

/-- Check bit `i + 1` where check vector `i` has bit `n`. -/
def columnBit (n i : Nat) : Byte :=
  if ((pbits0.getD i []).getD (n / 8) 0).getLsbD (n % 8) then (1 : Byte) <<< (i + 1) else 0

/-- What flipping bit `n` adds to the syndrome. -/
def column (n : Nat) : Byte :=
  if n < 64 then (List.range 7).foldl (fun s i => s ^^^ columnBit n i) 0 ^^^ 1
  else bitMask (n - 64)

private theorem bitMask_bit : ∀ k < 8, ∀ i < 8, (bitMask k).getLsbD i = decide (i = k) := by
  decide

private theorem count_zero : count 0 = 0 := by
  decide

/-- One bit of a vector is seen through a mask of one bit. -/
theorem count_bitMask (k : Nat) (small : k < 8) (v : Byte) :
    count (bitMask k &&& v) = if v.getLsbD k then 1 else 0 := by
  have bits : ∀ i ∈ List.range 8,
      (bitMask k &&& v).getLsbD i = true ↔ (decide (i = k) && v.getLsbD k) = true := by
    intro i member
    rw [BitVec.getLsbD_and, bitMask_bit k small i (List.mem_range.mp member)]
    by_cases here : i = k <;> simp [here]
  rw [count, List.countP_congr bits]
  cases v.getLsbD k with
  | false => simp
  | true =>
    have once : (List.range 8).countP (fun i => decide (i = k)) = 1 := by
      interval_cases k <;> rfl
    simpa using once

private theorem getD_flipWord (word : List Byte) (bytes : word.length = 8) (n j : Nat)
    (inWord : n < 64) :
    (flipWord word n).getD j 0 =
      if j = n / 8 then word.getD j 0 ^^^ bitMask (n % 8) else word.getD j 0 := by
  have inside : n / 8 < word.length := by omega
  simp only [flipWord, List.getD_eq_getElem?_getD, List.getElem?_modify]
  by_cases here : j = n / 8
  · subst here
    simp [List.getElem?_eq_getElem inside]
  · simp [here, Ne.symm here]

/-- Eight bytes in which bit `n` alone is set. -/
def unitWord (n : Nat) : List Byte := flipWord (List.replicate 8 0) n

private theorem getD_unitWord (n j : Nat) (inWord : n < 64) (below : j < 8) :
    (unitWord n).getD j 0 = if j = n / 8 then bitMask (n % 8) else 0 := by
  have blank : (List.replicate 8 (0 : Byte)).getD j 0 = 0 := by
    rw [List.getD_eq_getElem?_getD, List.getElem?_replicate, if_pos below]
    rfl
  rw [unitWord, getD_flipWord _ (by simp) n j inWord, blank]
  split_ifs
  · exact BitVec.zero_xor
  · rfl

/-- In a loop that adds one term of eight the others do not matter. -/
theorem foldl_xor_single (k : Nat) (small : k < 8) (term : Byte) :
    (List.range 8).foldl (fun s j => s ^^^ if j = k then term else 0) 0 = term := by
  interval_cases k <;> simp [List.range_succ]

private theorem parityByte_unitWord (n : Nat) (inWord : n < 64) :
    parityByte (unitWord n) = column n := by
  have place : n / 8 < 8 := by omega
  have bit : n % 8 < 8 := Nat.mod_lt _ (by decide)
  -- only the byte of the bit has a part in each check bit
  have terms : ∀ i, (List.range 8).foldl (fun s j => s ^^^ parityTerm (unitWord n) i j) 0 =
      columnBit n i := by
    intro i
    rw [← foldl_xor_single (n / 8) place (columnBit n i)]
    apply List.foldl_ext
    intro s j member
    congr 1
    unfold parityTerm
    rw [getD_unitWord n j inWord (List.mem_range.mp member)]
    by_cases here : j = n / 8
    · rw [if_pos here, if_pos here, here, count_bitMask _ bit, columnBit]
      split_ifs <;> simp_all
    · have unset : count (0 &&& (pbits0.getD i []).getD j 0) = 0 := by
        rw [show 0 &&& (pbits0.getD i []).getD j 0 = 0 from BitVec.zero_and, count_zero]
      rw [if_neg here, if_neg here, unset]
      rfl
  -- the parity over the whole word sees one bit
  have ones : wordOnes (unitWord n) = 1 := by
    have counts : ∀ j ∈ List.range 8,
        count ((unitWord n).getD j 0) = if j = n / 8 then 1 else 0 := by
      intro j member
      rw [getD_unitWord n j inWord (List.mem_range.mp member)]
      split_ifs
      · have mask : bitMask (n % 8) = bitMask (n % 8) &&& bitMask (n % 8) := BitVec.and_self.symm
        rw [mask, count_bitMask _ bit, bitMask_bit _ bit _ bit]
        simp
      · exact count_zero
    rw [wordOnes, List.map_congr_left counts]
    interval_cases n / 8 <;> rfl
  rw [parityByte_eq_terms, column, if_pos inWord, ones]
  simp only [terms]
  rfl

private theorem syndrome_encoded (word : List Byte) (bytes : word.length = 8) :
    (Chunk.encoded word bytes).syndrome = 0 := by
  exact BitVec.xor_self

private theorem syndrome_flip (c : Chunk) (n : Nat) :
    (c.flip n).syndrome = c.syndrome ^^^ column n := by
  unfold Chunk.flip Chunk.syndrome
  split_ifs with data
  · have linear :
        parityByte (flipWord c.word n) = parityByte c.word ^^^ parityByte (unitWord n) := by
      apply parityByte_linear
      intro j below
      rw [getD_flipWord c.word c.bytes n j data, getD_unitWord n j data below]
      split_ifs <;> simp
    simp only [linear, parityByte_unitWord n data]
    rw [BitVec.xor_assoc, BitVec.xor_comm (column n), ← BitVec.xor_assoc]
  · simp only [column, if_neg data, BitVec.xor_assoc]

/-- The columns of the 72 bits. -/
def columns : List Byte :=
  [0x07, 0x0B, 0x0D, 0x0F, 0x13, 0x15, 0x17, 0x19, 0x1B, 0x1D, 0x1F, 0x23, 0x25, 0x27, 0x29, 0x2B,
   0x2D, 0x2F, 0x31, 0x33, 0x35, 0x37, 0x39, 0x3B, 0x3D, 0x3B, 0x43, 0x45, 0x47, 0xD9, 0xDB, 0xDD,
   0xDF, 0xD1, 0xD3, 0xD5, 0xD7, 0xE9, 0xEB, 0xED, 0xEF, 0xE1, 0xE3, 0xE5, 0xE7, 0xF9, 0xFB, 0xFD,
   0xFF, 0xF1, 0xF3, 0xF5, 0xF7, 0xC9, 0xCF, 0xCD, 0xDB, 0x93, 0x95, 0x97, 0x99, 0x9B, 0x99, 0x9B,
   0x01, 0x02, 0x04, 0x08, 0x10, 0x20, 0x40, 0x80]

private theorem column_eq_table : ∀ n < 72, column n = columns.getD n 0 := by
  decide +kernel

private theorem syndrome_flips (c : Chunk) (flips : List Nat) (inChunk : ∀ n ∈ flips, n < 72) :
    (flips.foldl Chunk.flip c).syndrome =
      c.syndrome ^^^ flips.foldl (fun s n => s ^^^ columns.getD n 0) 0 := by
  induction flips generalizing c with
  | nil => exact BitVec.xor_zero.symm
  | cons n flips ih =>
    have rest := ih (c.flip n) fun m member => inChunk m (List.mem_cons_of_mem _ member)
    have first : 0 ^^^ columns.getD n 0 = columns.getD n 0 := BitVec.zero_xor
    rw [List.foldl_cons, List.foldl_cons, rest, syndrome_flip,
      column_eq_table n (inChunk n List.mem_cons_self), foldl_xor_shift _ (0 ^^^ _), first,
      BitVec.xor_assoc]

/-! ### The bits that the code handles -/

/-- The data bits whose column names their place. -/
def repaired : List Nat :=
  [1, 2, 3, 4, 5, 6, 8, 9, 10, 11, 12, 13, 14, 16, 17, 18, 19, 20, 21, 22, 24, 26, 27, 28,
   33, 34, 35, 36, 41, 42, 43, 44, 49, 50, 51, 52]

/-- The first bit with the column of bit `n`. Check bit 7 of the column is not compared. -/
def firstOfColumn (n : Nat) : Nat :=
  match n with
  | 25 => 23
  | 56 => 30
  | 57 => 4
  | 58 => 5
  | 59 => 6
  | 60 | 62 => 7
  | 61 | 63 => 8
  | n => n

/-- Two flipped bits that show as two: the parity of the chunk has both of them or none, and their
columns differ. -/
def Detected (m n : Nat) : Prop := (m ≤ 64 ↔ n ≤ 64) ∧ firstOfColumn m ≠ firstOfColumn n

instance (m n : Nat) : Decidable (Detected m n) :=
  inferInstanceAs (Decidable ((m ≤ 64 ↔ n ≤ 64) ∧ firstOfColumn m ≠ firstOfColumn n))

/-- The condition for single error correction and double error detection. A correction needs a CRC
of the bytes 12 to 19 that is the one from before the loop. -/
def Handled (crc1 : BitVec 16) (eChunk : List Byte) : List Nat → Prop
  | [] => True
  | [n] => n ∈ repaired ∧ (readBytes eChunk 12 8).map crcSlow = some crc1
  | m :: n :: _ => Detected m n

/-- Where the correction goes, as a bit of the eight bytes. -/
def target : DecodeResult → Option Nat
  | .single (some position) =>
    if position % 8 = 0 then none else some (position / 8 * 8 + (position % 8 - 1))
  | _ => none

private theorem target_iff_repaired : ∀ n < 72,
    target (resultOf (columns.getD n 0)) = some n ↔ n ∈ repaired := by
  decide +kernel

private theorem firstOfColumn_eq_findIdx : ∀ n < 72, firstOfColumn n =
    columns.findIdx fun c => c &&& 0x7F = columns.getD n 0 &&& 0x7F := by
  decide +kernel

private theorem column_of_first : ∀ n < 72,
    columns.getD (firstOfColumn n) 0 &&& 0x7F = columns.getD n 0 &&& 0x7F := by
  decide +kernel

private theorem column_parity : ∀ n < 72, columns.getD n 0 &&& 1 = if n ≤ 64 then 1 else 0 := by
  decide +kernel

private theorem resultOf_double_iff : ∀ s : Byte,
    resultOf s = .double ↔ s &&& 1 = 0 ∧ s &&& 0x7F ≠ 0 := by
  decide +kernel

/-! ### The correction -/

/-- Eight bytes with the bit flipped that result 1 names. -/
def fixWord (word : List Byte) (position : Option Nat) : Option (List Byte) := do
  let position ← position
  if position % 8 = 0 ∨ word.length ≤ position / 8 then none
  else some (word.modify (position / 8) (· ^^^ bitMask (position % 8 - 1)))

/-- Bit `k` of eight bytes. -/
def wordBit (word : List Byte) (k : Nat) : Bool := (word.getD (k / 8) 0).getLsbD (k % 8)

private theorem wordBit_flipWord (word : List Byte) (bytes : word.length = 8) (n k : Nat)
    (inWord : n < 64) :
    wordBit (flipWord word n) k = (wordBit word k ^^ decide (k = n)) := by
  have bits : ∀ m, m % 8 < 8 := fun m => Nat.mod_lt m (by decide)
  unfold wordBit
  rw [getD_flipWord word bytes n _ inWord]
  split_ifs with byte
  · have same : k % 8 = n % 8 ↔ k = n := by omega
    rw [BitVec.getLsbD_xor, bitMask_bit _ (bits n) _ (bits k)]
    simp [same]
  · have other : k ≠ n := fun equal => byte (by rw [equal])
    simp [other]

private theorem flipWord_twice (word : List Byte) (n : Nat) :
    flipWord (flipWord word n) n = word := by
  unfold flipWord
  apply List.ext_getElem?
  intro j
  simp only [List.getElem?_modify]
  cases word[j]? with
  | none => rfl
  | some b =>
    by_cases here : n / 8 = j
    · have twice : b ^^^ bitMask (n % 8) ^^^ bitMask (n % 8) = b := by
        rw [BitVec.xor_assoc, BitVec.xor_self, BitVec.xor_zero]
      simp [here, twice]
    · simp [here]

/-- A second flip undoes the first one only in the same place. -/
theorem flipWord_restores_iff (word : List Byte) (bytes : word.length = 8) (n m : Nat)
    (inWord : n < 64) (target : m < 64) : flipWord (flipWord word n) m = word ↔ m = n := by
  constructor
  · intro restored
    by_contra differ
    have bit : wordBit (flipWord (flipWord word n) m) n = wordBit word n := by rw [restored]
    rw [wordBit_flipWord _ (by simp [flipWord, bytes]) _ _ target,
      wordBit_flipWord _ bytes _ _ inWord]
      at bit
    have elsewhere : n ≠ m := fun equal => differ equal.symm
    cases h : wordBit word n <;> simp [h, elsewhere] at bit
  · rintro rfl
    exact flipWord_twice word m

private theorem checkBits_small : ∀ s : Byte, (checkBits s 0).toNat < 64 := by
  decide +kernel

private theorem postionInfraeme_small (check position : Nat) (small : check < 64)
    (named : postionInfraeme check = some position) : position < 58 := by
  unfold postionInfraeme at named
  split_ifs at named <;> simp at named <;> omega

/-- The place that the decoder names is inside the eight bytes. -/
theorem position_small (s : Byte) (position : Nat)
    (single : resultOf s = .single (some position)) : position < 58 := by
  unfold resultOf at single
  split_ifs at single
  exact postionInfraeme_small _ _ (checkBits_small s) (DecodeResult.single.inj single)

/-- The correction flips the bit that is its target. -/
theorem fixWord_eq_flipWord (word : List Byte) (bytes : word.length = 8) (s : Byte)
    (position : Option Nat) (single : resultOf s = .single position) :
    fixWord word position = (target (resultOf s)).map (flipWord word) := by
  rw [single]
  cases position with
  | none => rfl
  | some position =>
    have small := position_small s position single
    have inside : ¬ word.length ≤ position / 8 := by omega
    by_cases first : position % 8 = 0
    · simp [fixWord, target, first]
    · have byte : (position / 8 * 8 + (position % 8 - 1)) / 8 = position / 8 := by omega
      have bit : (position / 8 * 8 + (position % 8 - 1)) % 8 = position % 8 - 1 := by omega
      simp [fixWord, target, first, inside, flipWord, byte, bit]

private theorem single_of_target (result : DecodeResult) (m : Nat)
    (aimed : target result = some m) :
    ∃ position, result = .single (some position) ∧
      m = position / 8 * 8 + (position % 8 - 1) := by
  unfold target at aimed
  split at aimed
  next position =>
    split_ifs at aimed
    exact ⟨position, rfl, (Option.some.inj aimed).symm⟩
  · cases aimed

private theorem target_small (s : Byte) (m : Nat) (aimed : target (resultOf s) = some m) :
    m < 64 := by
  obtain ⟨position, single, place⟩ := single_of_target _ m aimed
  have small := position_small s position single
  omega

/-! ### Single correction, double detection -/

private theorem flip_word_data (c : Chunk) (n : Nat) (data : n < 64) :
    (c.flip n).word = flipWord c.word n := by
  rw [Chunk.flip, if_pos data]

private theorem check_never_single : ∀ n < 72, 64 ≤ n →
    resultOf (columns.getD n 0) = .correct ∨ resultOf (columns.getD n 0) = .double := by
  decide +kernel

/-- One flipped bit is repaired exactly when it is the target of the correction. -/
theorem single_restored_iff (c : Chunk) (n : Nat) (inChunk : n < 72) :
    (∃ position, resultOf (columns.getD n 0) = .single position ∧
      fixWord (c.flip n).word position = some c.word) ↔ n ∈ repaired := by
  rw [← target_iff_repaired n inChunk]
  constructor
  · rintro ⟨position, single, fixed⟩
    -- a flipped check bit is never taken for one error: the parity of the chunk is as sent
    have data : n < 64 := by
      by_contra check
      rcases check_never_single n inChunk (by omega) with result | result <;>
        rw [result] at single <;> cases single
    rw [fixWord_eq_flipWord _ (c.flip n).bytes _ _ single, flip_word_data c n data] at fixed
    obtain ⟨m, aimed, restored⟩ := Option.map_eq_some_iff.mp fixed
    rw [aimed, (flipWord_restores_iff c.word c.bytes n m data (target_small _ m aimed)).mp restored]
  · intro aimed
    have data := target_small _ n aimed
    obtain ⟨position, single, -⟩ := single_of_target _ n aimed
    refine ⟨some position, single, ?_⟩
    rw [fixWord_eq_flipWord _ (c.flip n).bytes _ _ single, aimed, flip_word_data c n data]
    exact congrArg some (flipWord_twice c.word n)

private theorem double_iff_detected (m n : Nat) (hm : m < 72) (hn : n < 72) :
    resultOf (columns.getD m 0 ^^^ columns.getD n 0) = .double ↔ Detected m n := by
  rw [resultOf_double_iff, Ne, masked_eq_iff, masked_eq_iff, column_parity m hm,
    column_parity n hn, Detected]
  apply and_congr
  -- the lowest bit is the parity of the chunk, which check bits other than 64 are not part of
  · split_ifs <;> simp [*]
  · apply not_congr
    constructor
    · intro same
      rw [firstOfColumn_eq_findIdx m hm, firstOfColumn_eq_findIdx n hn, same]
    · intro first
      rw [← column_of_first m hm, ← column_of_first n hn, first]

/-- The syndrome that arrives is that of the flipped bits. -/
theorem decode_flips (word : List Byte) (bytes : word.length = 8) (flips : List Nat)
    (inChunk : ∀ n ∈ flips, n < 72) :
    (flips.foldl Chunk.flip (Chunk.encoded word bytes)).decode =
      some (resultOf (flips.foldl (fun s n => s ^^^ columns.getD n 0) 0)) := by
  rw [decode_eq_resultOf, syndrome_flips _ flips inChunk, syndrome_encoded]
  congr 2
  exact BitVec.zero_xor

/-! ### A chunk in its packet -/

section

variable {eChunk : List Byte} {chunks i : Nat} {c : Chunk} (holds : Holds eChunk chunks i c)
include holds

private theorem Holds.decode : hammingDecode eChunk (i * 8) (chunks * 8 + i) = c.decode := by
  simp only [hammingDecode, Chunk.decode, holds.word, holds.check, readBytes_word,
    readBytes_check]

/-- The word is in front of the check bytes, so it does not reach the end of the string. -/
theorem Holds.long : i * 8 + 8 ≤ eChunk.length := by
  have inside := holds.inside
  have check := holds.check
  unfold readBytes at check
  split at check
  · omega
  · cases check

private theorem Holds.word_eq : (eChunk.drop (i * 8)).take 8 = c.word := by
  have long := holds.long
  have read := holds.word
  rw [readBytes, if_pos (by omega), List.drop_append_of_le_length (by omega),
    List.take_append_of_le_length (by rw [List.length_drop]; omega)] at read
  exact Option.some.inj read

/-- A byte of the word changes where it stands in the string. -/
theorem Holds.readBytes_modify (k : Nat) (f : Byte → Byte) :
    readBytes (eChunk.modify (i * 8 + k) f) (i * 8) 8 = some (c.word.modify k f) := by
  have long := holds.long
  have same : ((eChunk.modify (i * 8 + k) f).drop (i * 8)).take 8 =
      ((eChunk.drop (i * 8)).take 8).modify k f := by
    apply List.ext_getElem?
    intro j
    simp only [List.getElem?_take, List.getElem?_drop, List.getElem?_modify]
    by_cases inside : j < 8
    · simp [inside]
    · simp [inside]
  rw [readBytes, if_pos (by rw [List.length_modify]; omega),
    List.drop_append_of_le_length (by rw [List.length_modify]; omega),
    List.take_append_of_le_length (by rw [List.length_drop, List.length_modify]; omega), same,
    holds.word_eq]

/-- Where the CRCs agree, the correction flips the bit of the word that result 1 names. -/
theorem Holds.fixChunk_iff {crc1 : BitVec 16} {s : Byte} {position : Option Nat}
    (single : resultOf s = .single position) (word : List Byte) :
    (∃ fixed, fixChunk crc1 i position eChunk = some (some fixed) ∧
        readBytes fixed (i * 8) 8 = some word) ↔
      fixWord c.word position = some word ∧
        (readBytes eChunk 12 8).map crcSlow = some crc1 := by
  have long := holds.long
  cases read : readBytes eChunk 12 8 with
  | none => simp [fixChunk, read]
  | some tail =>
    by_cases same : crc1 = crcSlow tail
    · subst same
      cases position with
      | none => simp [fixChunk, fixWord, read]
      | some position =>
        have small := position_small s position single
        -- the byte to be flipped lies in the word, and so in the frame
        have inString : ¬eChunk.length ≤ i * 8 + position / 8 := by omega
        have inWord : ¬c.word.length ≤ position / 8 := by
          rw [c.bytes]
          omega
        have there := holds.readBytes_modify (position / 8) (· ^^^ bitMask (position % 8 - 1))
        by_cases first : position % 8 = 0
        · simp [fixChunk, fixWord, read, first]
        · have fixes : fixChunk (crcSlow tail) i (some position) eChunk = some (some
              (eChunk.modify (i * 8 + position / 8) (· ^^^ bitMask (position % 8 - 1)))) := by
            simp only [fixChunk, read, Option.bind_eq_bind, Option.bind_some, if_true,
              first, inString, or_self, if_false]
            rfl
          simp [fixes, there, fixWord, first, inWord]
    · -- the frame is lost
      have lost : fixChunk crc1 i position eChunk = some none := by
        simp [fixChunk, read, same]
      simp [lost, Ne.symm same]

end

/-- Single error correction and double error detection hold of the flipped bits that the code
handles and of no others. A bit flipped twice is no error, and none is seen. -/
theorem secDed_iff_handled (word : List Byte) (bytes : word.length = 8) (flips : List Nat)
    (inChunk : ∀ n ∈ flips, n < 72) (few : flips.length ≤ 2) (crc1 : BitVec 16) {chunks i : Nat}
    {eChunk : List Byte}
    (holds : Holds eChunk chunks i (flips.foldl Chunk.flip (Chunk.encoded word bytes))) :
    SecDed crc1 chunks i eChunk word flips ↔ Handled crc1 eChunk flips := by
  have decoded := holds.decode.trans (decode_flips word bytes flips inChunk)
  have first : ∀ b : Byte, 0 ^^^ b = b := fun b => BitVec.zero_xor
  -- the syndrome of the word itself is 0, so only the columns of the flipped bits remain
  match flips with
  | [] =>
    simp only [SecDed, Handled, iff_true]
    rw [decoded]
    rfl
  | [n] =>
    have single := single_restored_iff (Chunk.encoded word bytes) n (inChunk n (by simp))
    simp only [List.foldl_cons, List.foldl_nil, first] at decoded holds
    simp only [SecDed, Handled, ← single, decoded, Option.some.injEq]
    constructor
    · rintro ⟨position, fixed, result, fixes⟩
      obtain ⟨restored, agree⟩ := (holds.fixChunk_iff result word).mp ⟨fixed, fixes⟩
      exact ⟨⟨position, result, restored⟩, agree⟩
    · rintro ⟨⟨position, result, restored⟩, agree⟩
      obtain ⟨fixed, fixes⟩ := (holds.fixChunk_iff result word).mpr ⟨restored, agree⟩
      exact ⟨position, fixed, result, fixes⟩
  | [m, n] =>
    have double := double_iff_detected m n (inChunk m (by simp)) (inChunk n (by simp))
    simp only [SecDed, Handled, ← double]
    rw [decoded]
    simp only [List.foldl_cons, List.foldl_nil, first, Option.some.injEq]
  | _ :: _ :: _ :: _ => simp at few

/-- Eight letters A. -/
def letters : List Byte := List.replicate 8 0x41

/-- The string of a packet of three chunks, the first of which has arrived like this. The second one
has eight letters A, and the third one eight bytes of one kind. -/
def threeChunks (c : Chunk) (third : Byte) : List Byte :=
  c.word ++ letters ++ List.replicate 8 third ++
    [c.check, hammingEncode letters, hammingEncode (List.replicate 8 third)]

/-- The first chunk of letters with some of its bits flipped. -/
def flipped (flips : List Nat) : Chunk := flips.foldl Chunk.flip (Chunk.encoded letters rfl)

/-- Bit 1 of the first chunk is repaired where all letters are the same. -/
theorem secDed_letters :
    SecDed (crcSlow letters) 3 0 (threeChunks (flipped [1]) 0x41) letters [1] := by
  have handled : Handled (crcSlow letters) (threeChunks (flipped [1]) 0x41) [1] :=
    ⟨by decide, by decide +kernel⟩
  have holds : Holds (threeChunks (flipped [1]) 0x41) 3 0 (flipped [1]) := by decide +kernel
  exact (secDed_iff_handled letters rfl [1] (by decide) (by decide) _ holds).mpr handled

/-- Check bit 1 is taken for two errors, data bit 7 for the bit before the first one of byte 1, the
data bits 4 and 57 for none. The frame with data bit 1 flipped is lost if the third chunk is
another one than the second: the two CRCs differ, before anything is repaired. -/
theorem secDed_fails :
    ¬SecDed (crcSlow letters) 3 0 (threeChunks (flipped [65]) 0x41) letters [65] ∧
    ¬SecDed (crcSlow letters) 3 0 (threeChunks (flipped [7]) 0x41) letters [7] ∧
    ¬SecDed (crcSlow letters) 3 0 (threeChunks (flipped [4, 57]) 0x41) letters [4, 57] ∧
    ¬SecDed (crcSlow letters) 3 0 (threeChunks (flipped [1]) 0x42) letters [1] := by
  refine ⟨?_, ?_, ?_, ?_⟩
  · rintro ⟨position, fixed, single, -⟩
    have decoded : hammingDecode (threeChunks (flipped [65]) 0x41) 0 24 =
        some DecodeResult.double := by decide +kernel
    cases decoded.symm.trans single
  · rintro ⟨position, fixed, single, fixes, -⟩
    have decoded : hammingDecode (threeChunks (flipped [7]) 0x41) 0 24 =
        some (DecodeResult.single (some 8)) := by decide +kernel
    cases decoded.symm.trans single
    have undefined : fixChunk (crcSlow letters) 0 (some 8) (threeChunks (flipped [7]) 0x41) =
        none := by decide +kernel
    cases undefined.symm.trans fixes
  · intro double
    have decoded : hammingDecode (threeChunks (flipped [4, 57]) 0x41) 0 24 =
        some DecodeResult.correct := by decide +kernel
    cases decoded.symm.trans double
  · rintro ⟨position, fixed, single, fixes, -⟩
    have decoded : hammingDecode (threeChunks (flipped [1]) 0x42) 0 24 =
        some (DecodeResult.single (some 2)) := by decide +kernel
    cases decoded.symm.trans single
    have lost : fixChunk (crcSlow letters) 0 (some 2) (threeChunks (flipped [1]) 0x42) =
        some none := by decide +kernel
    cases lost.symm.trans fixes

end WrSwitch.Fec
