import Mathlib.Data.Fintype.Powerset
import WrSwitch.Fec.Transmission
import WrSwitch.Machine.Run

/-!
# What arrives of a message

`fec_decode` over any packets in any order. A message is returned once, with its second distinct
packet, in every run in which the packets hold no zero byte before their last one, no other message
has the same low bits of its id, and the message is not dropped from the cache.
-/
namespace WrSwitch.Fec

open Machine

/-! ### The cache -/

structure State.Sound (state : State) : Prop where
  slots : state.received.length = 4
  counted : state.received.countP (· ≠ []) = state.fragmentsReceived
  accepted : Fec.divsize state.msize < maxFragSize

structure Decoder.Sound (d : Decoder) : Prop where
  nodup : d.inCache.Nodup
  queued : ∀ id, id ∈ d.inCache ↔ (d.cache id).isSome
  states : ∀ id state, d.cache id = some state → state.Sound

/-- The oldest message of a full cache is another one. -/
def Decoder.Keeps (d : Decoder) (id : Nat) : Prop :=
  d.inCache.length ≤ maxOutputMessages ∨ d.inCache.head? ≠ some id

instance (d : Decoder) (id : Nat) : Decidable (d.Keeps id) :=
  inferInstanceAs (Decidable (_ ∨ _))

private theorem Decoder.initial_sound : Decoder.initial.Sound where
  nodup := List.nodup_nil
  queued id := by simp [Decoder.initial]
  states id state found := by cases found

/-- To make room drops the oldest message at most, and none that is kept. -/
theorem Decoder.Sound.evict {d : Decoder} (sound : d.Sound) :
    ∃ d', d.evict = some d' ∧ d'.Sound ∧ (∀ id, d.cache id = none → d'.cache id = none) ∧
      ∀ id, d.Keeps id → d'.cache id = d.cache id := by
  rw [Decoder.evict]
  split
  next full =>
    -- the oldest block leaves the full queue
    cases queue : d.inCache with
    | nil =>
      rw [queue] at full
      exact absurd full (by decide)
    | cons kill rest =>
      have nodup := sound.nodup
      have queued := sound.queued
      rw [queue] at nodup queued
      rw [List.nodup_cons] at nodup
      simp only []
      rw [if_pos ((queued kill).mp List.mem_cons_self)]
      let dropped : Decoder := ⟨Function.update d.cache kill none, rest⟩
      have own : dropped.cache kill = none := Function.update_self ..
      have others {id : Nat} (other : id ≠ kill) : dropped.cache id = d.cache id :=
        Function.update_of_ne other ..
      refine ⟨dropped, rfl, ⟨nodup.2, fun id => ?_, fun id state found => ?_⟩, fun id absent => ?_,
        fun id keeps => ?_⟩
      · by_cases same : id = kill
        · rw [same, own]
          exact iff_of_false nodup.1 (by decide)
        · rw [others same, ← queued, List.mem_cons, or_iff_right same]
      · by_cases same : id = kill
        · rw [same, own] at found
          cases found
        · exact sound.states id state (by rwa [others same] at found)
      · by_cases same : id = kill
        · rw [same, own]
        · rwa [others same]
      -- a block that is kept is not the oldest one
      · have other : id ≠ kill := by
          rintro rfl
          obtain short | head := keeps
          · omega
          · rw [queue] at head
            exact head rfl
        exact others other
  next => exact ⟨d, rfl, sound, fun _ absent => absent, fun _ _ => rfl⟩

private theorem newState_sound {msize : Nat} (accepted : divsize msize < maxFragSize) :
    (newState msize).Sound where
  slots := rfl
  counted := rfl
  accepted := accepted

/-- What the decoder knows of a message before its packet. -/
def Decoder.stateOf (d : Decoder) (p : Packet) : State :=
  (d.cache p.mID).getD (newState p.msize)

private theorem Decoder.Sound.stateOf {d : Decoder} (sound : d.Sound) {p : Packet}
    (accepted : divsize p.msize < maxFragSize) : (d.stateOf p).Sound := by
  rw [Decoder.stateOf]
  cases known : d.cache p.mID with
  | none => exact newState_sound accepted
  | some state => exact sound.states _ _ known

/-- A packet of a known message meets its state, another one a new state. -/
theorem Decoder.Sound.find {d : Decoder} (sound : d.Sound) {p : Packet}
    (accepted : divsize p.msize < maxFragSize) :
    ∃ d', d.find p = some (d', d.stateOf p) ∧ d'.Sound ∧
      d'.cache p.mID = some (d.stateOf p) ∧
      ∀ id ≠ p.mID, (d.cache p.mID).isSome ∨ d.Keeps id → d'.cache id = d.cache id := by
  have stateSound := sound.stateOf accepted
  rw [Decoder.find]
  cases known : d.cache p.mID with
  | some state => exact ⟨d, by rw [Decoder.stateOf, known]; rfl, sound,
      by rw [Decoder.stateOf, known]; rfl, fun _ _ _ => rfl⟩
  | none =>
    -- a new block may drive out an old one
    obtain ⟨kept, evicted, keptSound, absent, same⟩ := sound.evict
    have new : d.stateOf p = newState p.msize := by rw [Decoder.stateOf, known]; rfl
    rw [new] at stateSound ⊢
    let entered : Decoder :=
      ⟨Function.update kept.cache p.mID (some (newState p.msize)), kept.inCache ++ [p.mID]⟩
    have own : entered.cache p.mID = some (newState p.msize) := Function.update_self ..
    have others {id : Nat} (other : id ≠ p.mID) : entered.cache id = kept.cache id :=
      Function.update_of_ne other ..
    have notQueued : p.mID ∉ kept.inCache := by
      rw [keptSound.queued, absent _ known]
      decide
    refine ⟨entered, by rw [evicted]; rfl, ⟨?_, fun id => ?_, fun id state found => ?_⟩, own,
      fun id other given => ?_⟩
    · exact List.nodup_middle.mpr (by
        rw [List.append_nil, List.nodup_cons]
        exact ⟨notQueued, keptSound.nodup⟩)
    · by_cases same : id = p.mID
      · simp [same, entered]
      · rw [others same, ← keptSound.queued]
        simp [entered, same]
    · by_cases same : id = p.mID
      · rw [same, own] at found
        cases found
        exact stateSound
      · exact keptSound.states id state (by rwa [others same] at found)
    · obtain impossible | keeps := given
      · cases impossible
      · rw [others other, same id keeps]

/-! ### One message -/

variable {F : Type} [Field F] [DecidableEq F] (gf : Gf256 F)

private theorem length_missing (fragments : List (Option (List Byte))) :
    (missing fragments).length = fragments.countP (· = none) := by
  have spread : fragments = (List.range fragments.length).map (fragments.getD · none) :=
    List.ext_getElem (by simp) fun i inside _ => by simp [inside]
  rw [missing, ← List.countP_eq_length_filter]
  conv_rhs => rw [spread, List.countP_map]
  refine List.countP_congr fun i inside => ?_
  rw [List.mem_range] at inside
  simp [inside]

private theorem length_missing_fragmentsOf (received : List (List Byte)) :
    (missing (fragmentsOf received)).length + received.countP (· ≠ []) = received.length := by
  rw [length_missing, fragmentsOf, List.countP_map,
    List.length_eq_countP_add_countP (fun fragment => decide (fragment = []))]
  congr 1
  · exact List.countP_congr fun fragment _ => by simp
  · exact List.countP_congr fun fragment _ => by simp

/-- A fragment fills a place that was empty. -/
theorem State.Sound.enter {state : State} (sound : state.Sound) {p : Packet}
    (inside : p.index < state.received.length) (data : p.data ≠ [])
    (empty : state.received[p.index] = []) : (state.enter p).Sound where
  slots := (List.length_set ..).trans sound.slots
  counted := by
    rw [State.enter, List.countP_set inside, sound.counted]
    simp [empty, data]
  accepted := sound.accepted

section

variable {state : State} {p : Packet} (same : state.msize = p.msize)
include same

private theorem State.receive_taken {slot : List Byte} (here : state.received[p.index]? = some slot)
    (taken : slot ≠ []) : state.receive gf p = some (state, none) := by
  rw [State.receive, if_neg (not_not.mpr same), here]
  exact if_pos taken

private theorem State.receive_empty (here : state.received[p.index]? = some []) :
    state.receive gf p =
      if (state.enter p).fragmentsReceived = fecChopchop p.msize then
        (rsCode gf (Fec.divsize p.msize) (fragmentsOf (state.enter p).received)).map
          fun fragments => (state.enter p, some (reassemble p.msize fragments))
      else some (state.enter p, none) := by
  rw [State.receive, if_neg (not_not.mpr same), here]
  simp only []
  rw [if_neg (fun taken => taken rfl), ite_not]

end

/-- No packet with an index of the code breaks a state. -/
theorem State.Sound.receive {state : State} (sound : state.Sound) {p : Packet}
    (index : p.index < 4) (data : p.data ≠ []) :
    ∃ state' out, state.receive gf p = some (state', out) ∧ state'.Sound := by
  have inside : p.index < state.received.length := by rwa [sound.slots]
  have here := List.getElem?_eq_getElem inside
  by_cases same : state.msize = p.msize
  · by_cases empty : state.received[p.index] = []
    -- the slot was free
    · have entered := sound.enter inside data empty
      rw [State.receive_empty gf same (here.trans (congrArg some empty))]
      split
      next second =>
        have lost := length_missing_fragmentsOf (state.enter p).received
        rw [entered.counted, entered.slots, second, fecChopchop] at lost
        have length : (fragmentsOf (state.enter p).received).length = 4 := by
          rw [fragmentsOf, List.length_map, entered.slots]
        obtain ⟨words, done⟩ : ∃ words, rsCode gf (Fec.divsize p.msize)
            (fragmentsOf (state.enter p).received) = some words :=
          ⟨_, if_pos ⟨same ▸ sound.accepted, by rw [length]; decide, by rw [losses]; omega⟩⟩
        rw [done]
        exact ⟨_, _, rfl, entered⟩
      next => exact ⟨_, none, rfl, entered⟩
    -- a packet that came before, or one of another size, changes nothing
    · exact ⟨state, none, State.receive_taken gf same here empty, sound⟩
  · exact ⟨state, none, if_pos same, sound⟩

/-- The message of a packet is the only one that `fec_decode` changes, but for the one dropped. -/
theorem Decoder.Sound.accept {d : Decoder} (sound : d.Sound) {p : Packet}
    (accepted : divsize p.msize < maxFragSize) {state : State} {out : Option (List Byte)}
    (received : (d.stateOf p).receive gf p = some (state, out)) (stateSound : state.Sound) :
    ∃ d', d.accept gf p = some (d', out) ∧ d'.Sound ∧ d'.cache p.mID = some state ∧
      ∀ id ≠ p.mID, (d.cache p.mID).isSome ∨ d.Keeps id → d'.cache id = d.cache id := by
  obtain ⟨found, find, foundSound, own, frame⟩ := sound.find accepted
  -- the block is stored back, the queue stays
  let done : Decoder := ⟨Function.update found.cache p.mID (some state), found.inCache⟩
  have others {id : Nat} (other : id ≠ p.mID) : done.cache id = found.cache id :=
    Function.update_of_ne other ..
  have here : done.cache p.mID = some state := Function.update_self ..
  refine ⟨done, by rw [Decoder.accept, find]; simp only [received]; rfl,
    ⟨foundSound.nodup, fun id => ?_, fun id other known => ?_⟩, here, fun id other given => ?_⟩
  · by_cases same : id = p.mID
    · rw [same, here]
      exact (foundSound.queued p.mID).trans (by rw [own]; rfl)
    · rw [others same]
      exact foundSound.queued id
  · by_cases same : id = p.mID
    · rw [same, here] at known
      cases known
      exact stateSound
    · exact foundSound.states id other (by rwa [others same] at known)
  · rw [others other, frame id other given]

/-! ### The message in question -/

namespace Sent

variable (m : Sent)

/-- The message id as the decoder reads it. -/
def mID : Nat := 0x78000000 + (m.counter + 1).toNat % 2 ^ 24

def data (index : Nat) : List Byte :=
  resize (rsinsize m.message.length)
    (((m.words gf).getD index []).take (Fec.divsize m.message.length))

def asPacket (index : Nat) : Packet :=
  ⟨m.mID, m.message.length, index, m.data gf index⟩

private theorem data_ne_nil (index : Nat) : m.data gf index ≠ [] := by
  obtain ⟨-, positive, covers, -⟩ := sizes m.nonempty m.accepted
  intro empty
  have length := congrArg List.length empty
  rw [data, length_resize, List.length_nil] at length
  omega

private theorem data_getD (index : Nat) {s : Nat} (inside : s < Fec.divsize m.message.length) :
    (m.data gf index).getD s 0 = ((m.words gf).getD index []).getD s 0 := by
  obtain ⟨-, -, covers, -⟩ := sizes m.nonempty m.accepted
  rw [data]
  generalize (m.words gf).getD index [] = word
  rw [resize, List.take_take, Nat.min_eq_right covers]
  by_cases short : s < word.length
  · rw [List.getD_append _ _ _ _ (by rw [List.length_take]; omega),
      List.getD_eq_getElem _ _ (by rw [List.length_take]; omega), List.getElem_take,
      List.getD_eq_getElem _ _ short]
  · rw [List.getD_append_right _ _ _ _ (by rw [List.length_take]; omega),
      List.getD_eq_default _ _ (Nat.not_lt.mp short)]
    simp

private theorem fecDecode_packet (d : Decoder) {index : Nat} (small : index < 4) :
    fecDecode gf d (m.packet gf index) =
      if NulFree (m.packet gf index) then d.accept gf (m.asPacket gf index) else none := by
  rw [fecDecode, packet, parsePacket_packet _ _ _ m.nonempty m.accepted small]
  by_cases free : NulFree (withParity (packetChunks (m.counter + 1).toNat m.message.length
      ((m.words gf).getD index []) index))
  · rw [if_pos free, if_pos free]
    rfl
  · rw [if_neg free, if_neg free]

/-- The header of the first packet ends with its index. -/
theorem packet_zero : ¬NulFree (m.packet gf 0) := by
  obtain ⟨fits, -, -, -, several, -, bound⟩ := sizes m.nonempty m.accepted
  have length : (m.packet gf 0).length = _ := length_packet _ _ _ m.nonempty m.accepted
  have header : (m.packet gf 0).take 8 = headerBytes
      (packHeader (m.counter + 1).toNat m.message.length (fragLen m.message.length) 0) := by
    rw [packet, withParity, List.take_append_of_le_length (by rw [length_packetChunks]; omega),
      take_packetChunks]
  have last : (m.packet gf 0)[7]? = some 0 := by
    rw [← List.getElem?_take_of_lt (by decide : 7 < 8), header,
      packHeader_eq fits bound (by decide)]
    have multiple (header : Nat) (zero : header % 256 = 0) :
        (headerBytes header)[7]? = some 0 := by
      have low : BitVec.ofNat 8 header = 0 := BitVec.eq_of_toNat_eq (by simpa using zero)
      simpa [headerBytes, List.range_succ] using low
    exact multiple _ (by omega)
  intro free
  refine free 0 (List.mem_iff_getElem?.mpr ⟨7, ?_⟩) rfl
  rw [List.getElem?_dropLast, if_pos (by omega), last]

/-- The state of the message when the packets of a set have been received. -/
def state (received : Finset (Fin 4)) : State where
  msize := m.message.length
  divsize := Fec.divsize m.message.length
  fragmentsReceived := received.card
  received := (List.finRange 4).map fun index => if index ∈ received then m.data gf index else []

private theorem state_empty : m.state gf ∅ = newState m.message.length := by
  rw [state, newState]
  simp [fecChopchop, losses, List.finRange_succ]

private theorem state_sound (received : Finset (Fin 4)) : (m.state gf received).Sound where
  slots := by simp [state]
  counted := by
    have card : (List.finRange 4).countP (· ∈ received) = received.card := by
      revert received
      decide
    have number : (m.state gf received).fragmentsReceived = received.card := rfl
    rw [number, ← card, state, List.countP_map]
    refine List.countP_congr fun index _ => ?_
    by_cases member : index ∈ received
    · simp [member, m.data_ne_nil gf]
    · simp [member]
  accepted := m.accepted

private theorem state_slot (received : Finset (Fin 4)) (index : Fin 4) :
    (m.state gf received).received[(index : Nat)]? =
      some (if index ∈ received then m.data gf index else []) := by
  simp [state]

/-- A packet that has come before changes nothing. -/
theorem receive_again {received : Finset (Fin 4)} {index : Fin 4} (member : index ∈ received) :
    (m.state gf received).receive gf (m.asPacket gf index) = some (m.state gf received, none) := by
  have slot := m.state_slot gf received index
  rw [if_pos member] at slot
  exact State.receive_taken gf rfl slot (m.data_ne_nil gf index)

private theorem enter_state {received : Finset (Fin 4)} {index : Fin 4} (new : index ∉ received) :
    (m.state gf received).enter (m.asPacket gf index) = m.state gf (insert index received) := by
  rw [State.enter, state, state, Finset.card_insert_of_notMem new]
  congr 1
  refine List.ext_getElem (by simp) fun k inside inside' => ?_
  have small : k < 4 := by simpa using inside'
  rw [List.getElem_set, List.getElem_map, List.getElem_map]
  by_cases same : (index : Nat) = k
  · subst same
    simp [asPacket]
  · have other : (⟨k, small⟩ : Fin 4) ≠ index := fun equal => same (congrArg Fin.val equal).symm
    simp [asPacket, same, other]

/-- The second packet, whichever it is, gives the message. -/
theorem rsCode_state {received : Finset (Fin 4)} (two : received.card = 2) :
    ∃ fragments, rsCode gf (Fec.divsize m.message.length)
        (fragmentsOf (m.state gf received).received) = some fragments ∧
      reassemble m.message.length fragments = m.message := by
  have length : (fragmentsOf (m.state gf received).received).length = 4 := by
    simp [fragmentsOf, state]
  have lost := length_missing_fragmentsOf (m.state gf received).received
  rw [(m.state_sound gf received).counted, (m.state_sound gf received).slots,
    show (m.state gf received).fragmentsReceived = 2 from two] at lost
  -- the two fragments that came are those of the message
  have known (s : Nat) (inside : s < Fec.divsize m.message.length) (k : Nat) (w : List Byte)
      (here : (fragmentsOf (m.state gf received).received)[k]? = some (some w)) :
      w.getD s 0 = ((m.words gf).getD k []).getD s 0 := by
    have small : k < 4 := length ▸ (List.getElem?_eq_some_iff.mp here).1
    rw [fragmentsOf, List.getElem?_map, m.state_slot gf received ⟨k, small⟩, Option.map_some] at here
    by_cases member : (⟨k, small⟩ : Fin 4) ∈ received
    · rw [if_pos member, if_neg (m.data_ne_nil gf k)] at here
      cases here
      exact m.data_getD gf k inside
    · rw [if_neg member, if_pos rfl] at here
      cases here
  obtain ⟨fragments, done, agree⟩ := rsCode_recovers gf m.accepted (by rw [length]; decide)
    (by rw [length]; decide) (by rw [losses]; omega) (m.rsWord gf)
    ((m.length_words gf).trans length.symm) known
  exact ⟨fragments, done, m.reassemble_eq gf fun k data => agree k (by omega)⟩

private theorem receive_new {received : Finset (Fin 4)} {index : Fin 4} (new : index ∉ received) :
    (m.state gf received).receive gf (m.asPacket gf index) =
      some (m.state gf (insert index received),
        if received.card = 1 then some m.message else none) := by
  have slot := m.state_slot gf received index
  rw [if_neg new] at slot
  have number := Finset.card_insert_of_notMem new
  rw [State.receive_empty gf rfl slot, m.enter_state gf new]
  by_cases second : received.card = 1
  · rw [second] at number
    obtain ⟨fragments, done, whole⟩ := m.rsCode_state gf number
    have returned : (rsCode gf (Fec.divsize (m.asPacket gf index).msize)
        (fragmentsOf (m.state gf (insert index received)).received)) = some fragments := done
    have whole : reassemble (m.asPacket gf index).msize fragments = m.message := whole
    rw [if_pos second, returned, Option.map_some, whole]
    exact if_pos number
  · rw [if_neg second]
    exact if_neg fun two => second (Nat.succ.inj (number.symm.trans two))

private theorem receive_eq (received : Finset (Fin 4)) (index : Fin 4) :
    (m.state gf received).receive gf (m.asPacket gf index) =
      some (m.state gf (insert index received),
        if index ∉ received ∧ received.card = 1 then some m.message else none) := by
  by_cases member : index ∈ received
  · rw [m.receive_again gf member, Finset.insert_eq_of_mem member, if_neg fun both => both.1 member]
  · rw [m.receive_new gf member]
    simp only [member, not_false_eq_true, true_and]

end Sent

/-! ### Runs -/

/-- The packets of `m` among those delivered. -/
def seen (m : Sent) (es : List (Sent × Fin 4)) : Finset (Fin 4) :=
  ((es.filter fun e => e.1 = m).map Prod.snd).toFinset

private theorem seen_concat (m : Sent) (es : List (Sent × Fin 4)) (e : Sent × Fin 4) :
    seen m (es ++ [e]) = if e.1 = m then insert e.2 (seen m es) else seen m es := by
  rw [seen, List.filter_append, List.map_append, List.toFinset_append]
  split
  next own => simp [own, seen]
  next other => simp [other, seen]

/-- `fec_decode` of one packet more; no decoder is left where it failed. -/
def deliver (world : Option Decoder) (e : Sent × Fin 4) : Option Decoder :=
  world.bind fun d => (fecDecode gf d (e.1.packet gf e.2)).map Prod.fst

/-- What `fec_decode` returns for the packet. -/
def returned (world : Option Decoder) (e : Sent × Fin 4) : Option (Option (List Byte)) :=
  world.bind fun d => (fecDecode gf d (e.1.packet gf e.2)).map Prod.snd

/-- The decoder that has had the deliveries before number `k`. -/
def decoderAt (es : List (Sent × Fin 4)) (k : Nat) : Option Decoder :=
  run (deliver gf) (some Decoder.initial) (es.take k)

/-- The packet brings the second fragment. -/
def Completes (m : Sent) (es : List (Sent × Fin 4)) (k : Nat) (index : Fin 4) : Prop :=
  index ∉ seen m (es.take k) ∧ (seen m (es.take k)).card = 1

instance (m : Sent) (es : List (Sent × Fin 4)) (k : Nat) (index : Fin 4) :
    Decidable (Completes m es k index) := inferInstanceAs (Decidable (_ ∧ _))

/-- The packets are those of `fec_encode`. `m` is returned at the packet that completes its second
fragment, and only there. -/
structure RoundTrip (m : Sent) (es : List (Sent × Fin 4)) : Prop where
  handed : m.HandedOut gf ∧ ∀ e ∈ es, e.1.HandedOut gf
  each : ∀ k index, es[k]? = some (m, index) → returned gf (decoderAt gf es k) (m, index) =
    some (if Completes m es k index then some m.message else none)
  once : 2 ≤ (seen m es).card → ∃! k, ∃ index, es[k]? = some (m, index) ∧
    returned gf (decoderAt gf es k) (m, index) = some (some m.message)

/-- A packet that the decoder can read, and that leaves what it knows of `m` intact: another
message has another id, and is known or does not displace `m`. -/
def Admits (m : Sent) (world : Option Decoder) (e : Sent × Fin 4) : Prop :=
  NulFree (e.1.packet gf e.2) ∧ (e.1 ≠ m →
    e.1.mID ≠ m.mID ∧ ∀ d ∈ world, (d.cache e.1.mID).isSome ∨ d.Keeps m.mID)

structure Tracks (m : Sent) (received : Finset (Fin 4)) (d : Decoder) : Prop where
  sound : d.Sound
  known : d.cache m.mID = if received = ∅ then none else some (m.state gf received)

private theorem Tracks.stateOf {m : Sent} {received : Finset (Fin 4)} {d : Decoder}
    (tracks : Tracks gf m received d) (index : Nat) :
    d.stateOf (m.asPacket gf index) = m.state gf received := by
  rw [Decoder.stateOf, show (m.asPacket gf index).mID = m.mID from rfl, tracks.known]
  split
  next empty => rw [empty, m.state_empty]; rfl
  next => rfl

private theorem Tracks.deliver {m : Sent} {received : Finset (Fin 4)} {d : Decoder}
    {e : Sent × Fin 4} (tracks : Tracks gf m received d) (admits : Admits gf m (some d) e) :
    ∃ d' out, fecDecode gf d (e.1.packet gf e.2) = some (d', out) ∧
      Tracks gf m (if e.1 = m then insert e.2 received else received) d' ∧
      (e.1 = m → out = if e.2 ∉ received ∧ received.card = 1 then some m.message else none) := by
  obtain ⟨free, others⟩ := admits
  obtain ⟨sent, index⟩ := e
  rw [sent.fecDecode_packet gf d index.isLt, if_pos free]
  by_cases own : sent = m
  · subst own
    have received' := tracks.stateOf gf index ▸ sent.receive_eq gf received index
    obtain ⟨d', accepted, sound, here, -⟩ := tracks.sound.accept gf sent.accepted received'
      (sent.state_sound gf _)
    refine ⟨d', _, accepted, ⟨sound, ?_⟩, fun _ => rfl⟩
    rw [if_pos rfl, if_neg (Finset.insert_ne_empty _ _)]
    exact here
  -- a packet of another message enters a block of its own
  · have before : (d.stateOf (sent.asPacket gf index)).Sound :=
      tracks.sound.stateOf sent.accepted
    obtain ⟨state, out, received', stateSound⟩ :=
      before.receive gf (p := sent.asPacket gf index) index.isLt (sent.data_ne_nil gf index)
    obtain ⟨d', accepted, sound, -, frame⟩ := tracks.sound.accept gf sent.accepted received'
      stateSound
    refine ⟨d', out, accepted, ⟨sound, ?_⟩, fun same => absurd same own⟩
    rw [if_neg own, ← tracks.known]
    obtain ⟨distinct, keeps⟩ := others own
    exact frame m.mID distinct.symm (keeps d rfl)

private theorem decoderAt_tracks {m : Sent} {es : List (Sent × Fin 4)}
    (along : Along (Admits gf m) (deliver gf) (some Decoder.initial) es) :
    ∃ d, run (deliver gf) (some Decoder.initial) es = some d ∧ Tracks gf m (seen m es) d := by
  induction es using List.reverseRecOn with
  | nil => exact ⟨Decoder.initial, rfl, Decoder.initial_sound, rfl⟩
  | append_singleton es e ih =>
    obtain ⟨before, last⟩ := Along.append.mp along
    obtain ⟨d, reached, tracks⟩ := ih before
    rw [reached] at last
    obtain ⟨d', out, decoded, tracks', -⟩ := tracks.deliver gf last.1
    refine ⟨d', ?_, by rwa [seen_concat]⟩
    rw [run_concat, reached, deliver, Option.bind_some, decoded]
    rfl

private theorem seen_take_mono (m : Sent) (es : List (Sent × Fin 4)) {k k' : Nat} (later : k ≤ k') :
    seen m (es.take k) ⊆ seen m (es.take k') := by
  intro index member
  rw [seen, List.mem_toFinset] at member ⊢
  exact List.map_subset _ (List.filter_subset _ (List.take_subset_take_left es later)) member

/-- A completing packet is the second. -/
theorem Completes.card_succ {m : Sent} {es : List (Sent × Fin 4)} {k : Nat} {index : Fin 4}
    (here : es[k]? = some (m, index)) (completes : Completes m es k index) :
    (seen m (es.take (k + 1))).card = 2 := by
  rw [List.take_add_one, here, Option.toList_some, seen_concat, if_pos rfl,
    Finset.card_insert_of_notMem completes.1, completes.2]

private theorem completes_le {m : Sent} {es : List (Sent × Fin 4)} {k k' : Nat}
    {index index' : Fin 4} (here : es[k]? = some (m, index)) (completes : Completes m es k index)
    (completes' : Completes m es k' index') : k' ≤ k := by
  by_contra later
  have grown := Finset.card_le_card (seen_take_mono m es (Nat.lt_of_not_ge later))
  rw [completes.card_succ here, completes'.2] at grown
  omega

private theorem exists_completes {m : Sent} {es : List (Sent × Fin 4)}
    (two : 2 ≤ (seen m es).card) :
    ∃ k index, es[k]? = some (m, index) ∧ Completes m es k index := by
  induction es using List.reverseRecOn with
  | nil => simp [seen] at two
  | append_singleton es e ih =>
    by_cases before : 2 ≤ (seen m es).card
    · obtain ⟨k, index, here, completes⟩ := ih before
      have inside := (List.getElem?_eq_some_iff.mp here).1
      refine ⟨k, index, by rwa [List.getElem?_append_left inside], ?_⟩
      rwa [Completes, List.take_append_of_le_length inside.le]
    · -- the last packet is the second
      rw [seen_concat] at two
      split at two
      next own =>
        -- two were seen after it and not before, so it was not seen yet
        have new : e.2 ∉ seen m es := fun member =>
          before (by rwa [Finset.insert_eq_of_mem member] at two)
        rw [Finset.card_insert_of_notMem new] at two
        refine ⟨es.length, e.2, by simp [← own], ?_⟩
        rw [Completes, List.take_left]
        exact ⟨new, by omega⟩
      next => exact absurd two before

/-- The second fragment comes once. -/
theorem exists_unique_completes {m : Sent} {es : List (Sent × Fin 4)}
    (two : 2 ≤ (seen m es).card) :
    ∃! k, ∃ index, es[k]? = some (m, index) ∧ Completes m es k index := by
  obtain ⟨k, index, here, completes⟩ := exists_completes two
  refine ⟨k, ⟨index, here, completes⟩, fun k' ⟨index', here', completes'⟩ => ?_⟩
  exact Nat.le_antisymm (completes_le here completes completes')
    (completes_le here' completes' completes)

/-- Where every packet is admitted, the message makes its round trip. -/
theorem message_returned_once (m : Sent) (es : List (Sent × Fin 4))
    (along : Along (Admits gf m) (deliver gf) (some Decoder.initial) es) :
    RoundTrip gf m es := by
  -- the packets before this one decide what it returns
  have each (k : Nat) (index : Fin 4) (here : es[k]? = some (m, index)) :
      returned gf (decoderAt gf es k) (m, index) =
        some (if Completes m es k index then some m.message else none) := by
    obtain ⟨inside, same⟩ := List.getElem?_eq_some_iff.mp here
    have split := List.take_append_drop k es
    rw [List.drop_eq_getElem_cons inside, same] at split
    rw [← split] at along
    obtain ⟨before, after⟩ := Along.append.mp along
    obtain ⟨d, reached, tracks⟩ := decoderAt_tracks gf before
    rw [reached] at after
    obtain ⟨d', out, decoded, -, value⟩ := tracks.deliver gf after.1
    rw [decoderAt, reached, returned, Option.bind_some, decoded, value rfl]
    rfl
  refine ⟨⟨m.handedOut gf, fun e _ => e.1.handedOut gf⟩, each, fun two => ?_⟩
  obtain ⟨k, ⟨index, here, completes⟩, unique⟩ := exists_unique_completes two
  refine ⟨k, ⟨index, here, by rw [each k index here, if_pos completes]⟩,
    -- only one packet is the second new one
    fun k' ⟨index', here', again⟩ => ?_⟩
  refine unique k' ⟨index', here', ?_⟩
  by_contra other
  rw [each k' index' here', if_neg other] at again
  cases again

section

noncomputable instance decEqGaloisField : DecidableEq (GaloisField 2 8) := Classical.decEq _

/-- The message that the test program encodes. -/
def payloads : Sent where
  message := [0x31, 0x32, 0x33, 0x34].flatMap fun n => [0x50, 0x41, 0x59, 0x4C, 0x4F, 0x41, 0x44, n]
  counter := 0
  nonempty := by decide
  accepted := by decide

/-- The test program's message does not come back from its packets 0 and 1. -/
theorem payloads_lost : ¬RoundTrip galois256 payloads [(payloads, 0), (payloads, 1)] := by
  intro round
  have first := round.each 0 0 rfl
  rw [returned, decoderAt, List.take_zero, run_nil, Option.bind_some,
    payloads.fecDecode_packet galois256 _ (Fin.isLt _),
    if_neg (by exact payloads.packet_zero galois256)] at first
  cases first

def fours : Sent where
  message := List.replicate 31 4
  counter := 0x010100
  nonempty := by decide
  accepted := by decide

/-- The fragments of `fours`, with those that `RS_code` adds. -/
def foursWords : List (List Byte) :=
  [List.replicate 16 4, List.replicate 15 4 ++ [0], List.replicate 15 1 ++ [7],
    List.replicate 15 1 ++ [3]]

private theorem foursWords_rsWord : RsWord galois256 16 foursWords := by
  have four : galois256.embed 4 = galois256.g ^ 2 := by
    rw [Gf256.g]
    simp +decide [galois256, bitSum, Fin.sum_univ_eight]
  have three : galois256.embed 3 = galois256.g + 1 := by
    rw [← galois256.embed_one, Gf256.g, ← galois256.embed_xor]
    rfl
  have seven : galois256.embed 7 = galois256.g ^ 2 + (galois256.g + 1) := by
    rw [← four, ← three, ← galois256.embed_xor]
    rfl
  have two := galois256.add_self (1 : GaloisField 2 8)
  -- the last stripe has the padding, the others are alike
  have bytes : ∀ s < 16, ∀ k < 4, (foursWords.getD k []).getD s 0 =
      if s = 15 then ([4, 0, 7, 3] : List Byte).getD k 0
      else ([4, 4, 1, 1] : List Byte).getD k 0 := by
    decide
  intro s stripe
  rw [Codeword, show foursWords.length = 4 from rfl]
  simp only [Finset.sum_range_succ, Finset.sum_range_zero, symbol, bytes s stripe 0 (by decide),
    bytes s stripe 1 (by decide), bytes s stripe 2 (by decide), bytes s stripe 3 (by decide)]
  split
  · simp only [List.getD_cons_zero, List.getD_cons_succ, four, three, seven,
      galois256.embed_zero]
    constructor
    · linear_combination (galois256.g ^ 2 + galois256.g + 1) * two
    · linear_combination
        (galois256.g ^ 4 + galois256.g ^ 3 + galois256.g ^ 2) * two
  · simp only [List.getD_cons_zero, List.getD_cons_succ, four, galois256.embed_one]
    constructor
    · linear_combination (galois256.g ^ 2 + 1) * two
    · linear_combination (galois256.g ^ 3 + galois256.g ^ 2) * two

private theorem fours_words {k : Nat} (inside : k < 4) :
    (fours.words galois256).getD k [] = foursWords.getD k [] := by
  refine fours.words_unique galois256 rfl (by decide) (fun k data => ?_) foursWords_rsWord inside
  rw [fours.words_data galois256 data]
  obtain rfl | rfl : k = 0 ∨ k = 1 := by omega
  · decide
  · decide

/-- A message without zero bytes comes back from its two packets of parity. -/
theorem fours_returned : RoundTrip galois256 fours [(fours, 2), (fours, 3)] :=
  message_returned_once galois256 fours [(fours, 2), (fours, 3)] (by
    refine ⟨⟨?_, fun other => absurd rfl other⟩, ⟨?_, fun other => absurd rfl other⟩, trivial⟩
    · change NulFree (withParity (packetChunks _ _ ((fours.words galois256).getD 2 []) 2))
      rw [fours_words (by decide)]
      decide
    · change NulFree (withParity (packetChunks _ _ ((fours.words galois256).getD 3 []) 3))
      rw [fours_words (by decide)]
      decide)

end

end WrSwitch.Fec
