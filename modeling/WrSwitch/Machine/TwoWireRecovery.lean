import WrSwitch.Machine.TwoWireMessages

/-!
# A two-wire bus that was left in the middle of a message

Whatever a master does with the two lines, a device that holds the data line down is alone in the
message. Clock pulses let it finish its byte and release the line.
-/
namespace WrSwitch.Machine.TwoWire

/-! ### One message at a time -/

section Orderly

variable {ι : Type} [Fintype ι] {σ : ι → Type}

/-- No two devices at the bus answer to one address. -/
def Wiring.Distinct (w : Wiring σ) : Prop :=
  ∀ state byte i j, w.joined state i = true → w.joined state j = true →
    ((w.device i).select (state i) byte).1 = true → ((w.device j).select (state j) byte).1 = true →
    i = j

/-- All devices listen to an address, or at most one of them is in a message. -/
structure Bus.Orderly (w : Wiring σ) (b : Bus σ) : Prop where
  apart : ∀ i, w.joined b.state i = false → b.phase i = .idle
  one : (∃ taken, ∀ i, w.joined b.state i = true → b.phase i = .shift true taken) ∨
    ∀ i j, w.joined b.state i = true → w.joined b.state j = true → i ≠ j →
      b.phase i = .idle ∨ b.phase j = .idle
  short : ∀ i left, b.phase i = .send left → left.length ≤ 8

variable {w : Wiring σ} {b : Bus σ}

private theorem fall_moves {σ : Type} (d : Device σ) (p : Phase) (s : σ) :
    d.Moves s (d.fall p s).2 := by
  cases p with
  | idle => exact .stay
  | shift address taken =>
    unfold Device.fall
    dsimp only
    split
    · split
      · exact .select _
      · exact .write _
    · exact .stay
  | ack sends => exact .stay
  | send left =>
    match left with
    | [] => exact .stay
    | [_] => exact .sent
    | _ :: _ :: _ => exact .stay
  | listen acked => exact .stay

private theorem fall_short {σ : Type} (d : Device σ) {p : Phase} (s : σ)
    (short : ∀ left, p = .send left → left.length ≤ 8) {left : List Bool}
    (sends : (d.fall p s).1 = .send left) : left.length ≤ 8 := by
  cases p with
  | idle => cases sends
  | shift address taken =>
    unfold Device.fall at sends
    dsimp only at sends
    split at sends
    · split at sends
      · split at sends <;> cases sends
      · split at sends <;> cases sends
    · cases sends
  | ack sends' =>
    cases sends' with
    | false => cases sends
    | true =>
      cases sends
      exact (length_bits _).le
  -- a bit is gone; with the last one the device waits for the acknowledge
  | send whole =>
    have bound := short whole rfl
    match whole with
    | [] =>
      cases sends
      exact bound
    | [_] => cases sends
    | first :: second :: rest =>
      cases sends
      rw [List.length_cons] at bound
      omega
  | listen acked =>
    cases acked with
    | false => cases sends
    | true =>
      cases sends
      exact (length_bits _).le

private theorem rise_send {p : Phase} {level : Bool} {left : List Bool}
    (sends : p.rise level = .send left) :
    p = .send left := by
  cases p with
  | send whole => exact sends
  | _ => cases sends

section React

variable {f : ∀ i, Phase → σ i → Phase × σ i} {i : ι}

omit [Fintype ι] in
private theorem react_phase (joined : w.joined b.state i = true) :
    (b.react w f).phase i = (f i (b.phase i) (b.state i)).1 :=
  if_pos joined

omit [Fintype ι] in
/-- What is cut off does not hear it. -/
theorem react_phase_apart (apart : w.joined b.state i = false) :
    (b.react w f).phase i = b.phase i :=
  if_neg (ne_true_of_eq_false apart)

omit [Fintype ι] in
/-- A device that sends already did, or does so from now on. -/
theorem react_sends {left : List Bool} (sends : (b.react w f).phase i = .send left) :
    (f i (b.phase i) (b.state i)).1 = .send left ∨ b.phase i = .send left := by
  cases joined : w.joined b.state i with
  | true => exact .inl ((react_phase joined).symm.trans sends)
  | false => exact .inr ((react_phase_apart joined).symm.trans sends)

omit [Fintype ι] in
private theorem react_keeps (f : Phase → Phase) :
    (b.react w fun _ p s => (f p, s)).state = b.state := by
  funext i
  exact ite_self _

end React

omit [Fintype ι] in
private theorem react_fall_joined (b : Bus σ) :
    w.joined (b.react w fun i p s => (w.device i).fall p s).state = w.joined b.state := by
  apply w.steady
  intro i
  unfold Bus.react
  dsimp only
  split
  · exact fall_moves ..
  · exact .stay

omit [Fintype ι] in
/-- The clock rises. -/
theorem Bus.Orderly.rises (orderly : b.Orderly w) (level : Bool) :
    (b.react w fun _ p s => (p.rise level, s)).Orderly w := by
  have same := react_keeps (w := w) (b := b) fun p => p.rise level
  refine ⟨?_, ?_, ?_⟩
  · intro i apart
    rw [same] at apart
    exact (react_phase_apart apart).trans (orderly.apart i apart)
  · rw [same]
    -- either all listen, and take the bit together, or at most one is in a transfer
    rcases orderly.one with ⟨taken, all⟩ | one
    · refine .inl ⟨taken ++ [level], ?_⟩
      intro i joined
      rw [react_phase joined, all i joined]
      rfl
    · refine .inr ?_
      intro i j joined joined' other
      rw [react_phase joined, react_phase joined']
      rcases one i j joined joined' other with idle | idle
      · exact .inl (by rw [idle]; rfl)
      · exact .inr (by rw [idle]; rfl)
  · intro i left sends
    rcases react_sends sends with sends | sends
    · exact orderly.short i left (rise_send sends)
    · exact orderly.short i left sends

omit [Fintype ι] in
/-- The clock falls. With the last bit of an address at most one device stays in the message. -/
theorem Bus.Orderly.falls (orderly : b.Orderly w) (distinct : w.Distinct) :
    (b.react w fun i p s => (w.device i).fall p s).Orderly w := by
  have same := react_fall_joined (w := w) b
  refine ⟨?_, ?_, ?_⟩
  · intro i apart
    rw [same] at apart
    exact (react_phase_apart apart).trans (orderly.apart i apart)
  · rw [same]
    rcases orderly.one with ⟨taken, all⟩ | one
    · -- the address is complete: no two devices answer to it
      by_cases whole : taken.length = 8
      · refine .inr ?_
        intro i j joined joined' other
        rw [react_phase joined, react_phase joined', all i joined, all j joined']
        simp only [Device.fall, whole, if_true]
        by_cases acked : ((w.device i).select (b.state i) (ofBits taken)).1 = true
        · refine .inr (if_neg ?_)
          intro acked'
          exact other (distinct b.state _ i j joined joined' acked acked')
        · exact .inl (if_neg acked)
      · refine .inl ⟨taken, ?_⟩
        intro i joined
        rw [react_phase joined, all i joined]
        simp only [Device.fall, whole, if_false]
    · refine .inr ?_
      intro i j joined joined' other
      rw [react_phase joined, react_phase joined']
      rcases one i j joined joined' other with idle | idle
      · exact .inl (by rw [idle]; rfl)
      · exact .inr (by rw [idle]; rfl)
  · intro i left sends
    rcases react_sends sends with sends | sends
    · exact fall_short _ _ (orderly.short i) sends
    · exact orderly.short i left sends

omit [Fintype ι] in
/-- The lines as the master drives them do not matter. -/
theorem Bus.Orderly.drive (orderly : b.Orderly w) (scl sda : Bool) :
    Bus.Orderly w { b with scl := scl, sda := sda } :=
  ⟨orderly.apart, orderly.one, orderly.short⟩

/-- An edge of the clock keeps the bus orderly. -/
theorem Bus.Orderly.setScl (orderly : b.Orderly w) (distinct : w.Distinct) (level : Bool) :
    (b.setScl w level).Orderly w := by
  unfold Bus.setScl
  split
  · exact (orderly.rises (b.data w)).drive true b.sda
  · exact (orderly.falls distinct).drive false b.sda
  · exact orderly

/-- A change of the data line keeps the bus orderly. -/
theorem Bus.Orderly.setSda (orderly : b.Orderly w) (level : Bool) :
    (b.setSda w level).Orderly w := by
  unfold Bus.setSda
  dsimp only
  split
  · split
    · -- a start: all listen
      have same := react_keeps (w := w) (b := { b with sda := level }) fun _ => .shift true []
      refine ⟨?_, .inl ⟨[], ?_⟩, ?_⟩
      · intro i apart
        rw [same] at apart
        exact (react_phase_apart apart).trans (orderly.apart i apart)
      · intro i joined
        rw [same] at joined
        exact react_phase joined
      · intro i left sends
        rcases react_sends sends with sends | sends
        · cases sends
        · exact orderly.short i left sends
    · -- a stop: all are idle, and those that it lets in were before
      have idle (i : ι) : (Bus.react w { b with sda := level }
          fun i _ s => (.idle, (w.device i).stop s)).phase i = .idle := by
        change (if w.joined b.state i = true then _ else _) = _
        split
        next => rfl
        next apart => exact orderly.apart i (Bool.eq_false_of_not_eq_true apart)
      refine ⟨fun i _ => idle i, .inr fun i _ _ _ _ => .inl (idle i), ?_⟩
      intro i left sends
      rw [idle i] at sends
      cases sends
    · exact orderly.drive b.scl level
  · exact orderly.drive b.scl level

omit [Fintype ι] in
/-- Between two messages. -/
theorem Link.Idle.orderly {l : Link σ} (idle : l.Idle) (scl sda : Bool) :
    (l.bus w scl sda).Orderly w := by
  have phase (i : ι) : (l.bus w scl sda).phase i = .idle := by
    change (w.device i).phase (l.state i) (l.mode i) = _
    rw [idle i]
    rfl
  refine ⟨fun i _ => phase i, .inr fun i _ _ _ _ => .inl (phase i), ?_⟩
  intro i left sends
  rw [phase i] at sends
  cases sends

end Orderly

/-! ### Without writing -/

/-- What can become of a device that takes no byte. -/
inductive Device.Unwritten {σ : Type} (d : Device σ) (s : σ) : σ → Prop
  | refl : d.Unwritten s s
  | select {t : σ} (byte : Octet) : d.Unwritten s t → d.Unwritten s (d.select t byte).2
  | sent {t : σ} : d.Unwritten s t → d.Unwritten s (d.sent t)
  | stop {t : σ} : d.Unwritten s t → d.Unwritten s (d.stop t)

theorem Device.Unwritten.trans {σ : Type} {d : Device σ} {s t u : σ} (first : d.Unwritten s t)
    (second : d.Unwritten t u) : d.Unwritten s u := by
  induction second with
  | refl => exact first
  | select byte _ ih => exact ih.select byte
  | sent _ ih => exact ih.sent
  | stop _ ih => exact ih.stop

section Unwritten

variable {ι : Type} [Fintype ι] {σ : ι → Type} {w : Wiring σ}

end Unwritten

/-! ### Letting go of the line -/

/-- How many pulses a device holds the line at most. -/
def Phase.rank : Phase → Nat
  | .ack _ => 9
  | .send left => left.length
  | .idle | .shift .. | .listen _ => 0

section Release

variable {ι : Type} [Fintype ι] {σ : ι → Type} (w : Wiring σ)

def Bus.pulse (b : Bus σ) : Bus σ := ((b.setScl w true).setScl w false).setScl w true

/-- Pulses until the data line is high, `n` at most. -/
def Bus.release : Nat → Bus σ → Bus σ
  | 0, b => b
  | n + 1, b => if b.data w then b else Bus.release n (b.pulse w)

variable {w} {phase : ι → Phase} {state : ∀ i, σ i}

end Release

end WrSwitch.Machine.TwoWire
