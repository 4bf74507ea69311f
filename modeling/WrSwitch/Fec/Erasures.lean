import WrSwitch.Fec.ReedSolomon

/-!
# Encoding and recovery

The encoder and the decoder are one function: `RS_code` adds the last two fragments to the others
and, of the fragments it made, fills in any two that are lost.
-/
namespace WrSwitch.Fec

variable {F : Type} [Field F] [DecidableEq F] (gf : Gf256 F)

/-- The fragments of a message before the last ones are computed. -/
def unencoded (data : List (List Byte)) : List (Option (List Byte)) :=
  data.map some ++ List.replicate losses none

/-- The fragments without those at two positions. -/
def lose (i j : Nat) (words : List (List Byte)) : List (Option (List Byte)) :=
  words.mapIdx fun k w => if k = i ∨ k = j then none else some w

private theorem length_unencoded (data : List (List Byte)) :
    (unencoded data).length = data.length + losses := by
  rw [unencoded, List.length_append, List.length_map, List.length_replicate]

private theorem length_lose (i j : Nat) (words : List (List Byte)) :
    (lose i j words).length = words.length := List.length_mapIdx

private theorem getElem?_unencoded (data : List (List Byte)) (k : Nat) :
    (unencoded data)[k]? = if k < data.length then data[k]?.map some
      else if k < data.length + losses then some none else none := by
  rw [unencoded, List.getElem?_append, List.length_map, List.getElem?_map]
  split
  next => rfl
  next late =>
    rw [List.getElem?_replicate]
    exact if_congr (by omega) rfl rfl

private theorem getElem?_lose (i j : Nat) (words : List (List Byte)) (k : Nat) :
    (lose i j words)[k]? = words[k]?.map fun w => if k = i ∨ k = j then none else some w :=
  List.getElem?_mapIdx

/-- Two positions are missing if they are all that has no fragment. -/
theorem length_missing_of_pair {fragments : List (Option (List Byte))} {i j : Nat} (apart : i ≠ j)
    (empty : ∀ k, fragments[k]? = some none ↔ k = i ∨ k = j) :
    (missing fragments).length = losses := by
  have pair : (missing fragments).toFinset = {i, j} := by
    ext k
    rw [List.mem_toFinset, mem_missing, empty, Finset.mem_insert, Finset.mem_singleton]
  rw [← List.toFinset_card_of_nodup (nodup_missing fragments), pair, Finset.card_pair apart]
  rfl

private theorem missing_lose {words : List (List Byte)} {i j : Nat} (order : i < j)
    (inside : j < words.length) : (missing (lose i j words)).length = losses := by
  refine length_missing_of_pair (Nat.ne_of_lt order) fun k => ?_
  rw [getElem?_lose, Option.map_eq_some_iff]
  constructor
  · rintro ⟨w, -, lost⟩
    by_contra kept
    rw [if_neg kept] at lost
    cases lost
  · intro lost
    have known : k < words.length := by omega
    exact ⟨words[k], List.getElem?_eq_getElem known, if_pos lost⟩

private theorem missing_unencoded (data : List (List Byte)) :
    (missing (unencoded data)).length = losses := by
  refine length_missing_of_pair (Nat.ne_of_lt (Nat.lt_succ_self data.length)) fun k => ?_
  rw [getElem?_unencoded, losses]
  by_cases early : k < data.length
  · rw [if_pos early, List.getElem?_eq_getElem early]
    exact iff_of_false (by simp) (by omega)
  · rw [if_neg early]
    by_cases last : k < data.length + 2
    · rw [if_pos last]
      exact iff_of_true rfl (by omega)
    · rw [if_neg last]
      exact iff_of_false (Option.some_ne_none _).symm (by omega)

/-- What the encoder makes of data fragments of one length. -/
structure Encoded (fragLen : Nat) (data words : List (List Byte)) : Prop where
  length : words.length = data.length + losses
  data : ∀ k w, data[k]? = some w → words.getD k [] = w
  lengths : ∀ k < words.length, (words.getD k []).length = fragLen
  word : RsWord gf fragLen words

/-- What `rs_code` makes of the data alone is the data with two words of parity behind it. -/
theorem encoded {fragLen : Nat} {data words : List (List Byte)} (few : data.length + losses ≤ 255)
    (lengths : ∀ d ∈ data, d.length = fragLen)
    (done : rsCode gf fragLen (unencoded data) = some words) : Encoded gf fragLen data words := by
  obtain ⟨-, length, known, filled⟩ := rsCode_eq_some gf done
  rw [length_unencoded] at length
  have kept : ∀ k w, data[k]? = some w → words.getD k [] = w := by
    intro k w here
    apply known
    have early := (List.getElem?_eq_some_iff.mp here).1
    rw [getElem?_unencoded, if_pos early, here]
    rfl
  refine ⟨length, kept, fun k inside => ?_, rsCode_completes gf ?_ done⟩
  · by_cases early : k < data.length
    · rw [kept k data[k] (List.getElem?_eq_getElem early)]
      exact lengths _ (List.getElem_mem early)
    · rw [filled k, length_recovered]
      rw [getElem?_unencoded, if_neg early, if_pos (length ▸ inside)]
  · rw [length_unencoded]
    exact few

/-- Lists of fragments of one length that agree in every symbol. -/
theorem fragments_ext {fragLen : Nat} {found words : List (List Byte)}
    (same : found.length = words.length)
    (lengths : ∀ k < words.length, (words.getD k []).length = fragLen)
    (lengths' : ∀ k < words.length, (found.getD k []).length = fragLen)
    (symbols : ∀ k < words.length, ∀ s < fragLen,
      (found.getD k []).getD s 0 = (words.getD k []).getD s 0) : found = words := by
  refine List.ext_getElem same fun k here inside => ?_
  have length := lengths k inside
  have length' := lengths' k inside
  have agree := symbols k inside
  rw [List.getD_eq_getElem _ _ inside] at length agree
  rw [List.getD_eq_getElem _ _ here] at length' agree
  refine List.ext_getElem (length'.trans length.symm) fun s below below' => ?_
  rw [← List.getD_eq_getElem _ 0 below, ← List.getD_eq_getElem _ 0 below']
  exact agree s (length ▸ below')

/-- Any two words of a code that are lost come back. -/
theorem Encoded.recovered {fragLen : Nat} {data words : List (List Byte)}
    (made : Encoded gf fragLen data words) (bound : fragLen < maxFragSize)
    (some_data : 0 < data.length) (few : data.length + losses ≤ 255) {i j : Nat} (order : i < j)
    (inside : j < words.length) : rsCode gf fragLen (lose i j words) = some words := by
  have two := missing_lose order inside
  have many : losses < (lose i j words).length := by
    rw [length_lose, made.length]
    omega
  have short : (lose i j words).length ≤ 255 := by
    rw [length_lose, made.length]
    exact few
  -- what is left of a word is the word itself
  have kept : ∀ k w, (lose i j words)[k]? = some (some w) → w = words.getD k [] := by
    intro k w here
    rw [getElem?_lose, Option.map_eq_some_iff] at here
    obtain ⟨w', at_k, fragment⟩ := here
    split at fragment
    next => cases fragment
    next =>
      cases fragment
      rw [List.getD_eq_getElem?_getD, at_k, Option.getD_some]
  obtain ⟨found, done, symbols⟩ := rsCode_recovers gf bound many short two made.word
    (length_lose i j words).symm fun s _ k w here => by rw [kept k w here]
  obtain ⟨-, length, known, filled⟩ := rsCode_eq_some gf done
  rw [length_lose] at length symbols
  have lengths : ∀ k < words.length, (found.getD k []).length = fragLen := by
    intro k below
    -- a lost word comes back in full length, the others are as they were made
    by_cases lost : k = i ∨ k = j
    · rw [filled k, length_recovered]
      rw [getElem?_lose, List.getElem?_eq_getElem below, Option.map_some, if_pos lost]
    · have fragment : (lose i j words)[k]? = some (some (words.getD k [])) := by
        rw [getElem?_lose, List.getElem?_eq_getElem below, Option.map_some, if_neg lost,
          List.getD_eq_getElem _ _ below]
      rw [known k _ fragment]
      exact made.lengths k below
  rw [done, fragments_ext length made.lengths lengths symbols]

/-- From 3 to 255 fragments of any length that `RS_code` takes: the last two are computed from the
others, and if any two of them all are lost `RS_code` gives back exactly those. -/
theorem rsCode_restores {fragLen : Nat} (data : List (List Byte)) (bound : fragLen < maxFragSize)
    (some_data : 0 < data.length) (few : data.length + losses ≤ 255)
    (lengths : ∀ d ∈ data, d.length = fragLen) :
    ∃ words, rsCode gf fragLen (unencoded data) = some words ∧
      words.length = data.length + losses ∧ words.take data.length = data ∧
      ∀ i j, i < j → j < words.length → rsCode gf fragLen (lose i j words) = some words := by
  obtain ⟨words, done⟩ : ∃ words, rsCode gf fragLen (unencoded data) = some words :=
    ⟨_, if_pos ⟨bound, by rw [length_unencoded]; omega, missing_unencoded data⟩⟩
  have made := encoded gf few lengths done
  refine ⟨words, done, made.length, ?_, fun i j => made.recovered gf bound some_data few⟩
  have long := made.length
  refine List.ext_getElem (by rw [List.length_take]; omega) fun k _ inside => ?_
  rw [List.getElem_take, ← List.getD_eq_getElem _ []]
  exact made.data k _ (List.getElem?_eq_getElem inside)

open scoped Classical in
/-- One data byte and two more, of which the first and the last are lost. -/
theorem rsCode_restores_one :
    ∃ words, rsCode galois256 1 (unencoded [[0x31]]) = some words ∧
      rsCode galois256 1 (lose 0 2 words) = some words := by
  obtain ⟨words, made, length, -, back⟩ :=
    rsCode_restores galois256 [[0x31]] (by decide : 1 < maxFragSize) (by decide) (by decide)
      (by simp)
  exact ⟨words, made, back 0 2 (by decide) (by rw [length]; decide)⟩

end WrSwitch.Fec
