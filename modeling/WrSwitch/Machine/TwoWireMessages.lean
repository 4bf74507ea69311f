import WrSwitch.Machine.TwoWire

/-!
# Messages on a two-wire bus

A start, an address, bytes in one direction, and a stop. Where a single device answers to the
address, the message is between the master and that device.
-/
namespace WrSwitch.Machine.TwoWire

/-! ### Messages -/

section Messages

variable {ι : Type} [Fintype ι] {σ : ι → Type} (w : Wiring σ)

/-- Bytes for the devices that take them, up to the first that none acknowledges. -/
def Link.writeBytes : List Octet → Link σ → Nat × Link σ
  | [], l => (0, l)
  | byte :: bytes, l =>
    let r := l.write w byte
    if r.1 then
      let q := Link.writeBytes bytes r.2
      (q.1 + 1, q.2)
    else (0, r.2)

/-- Bytes from the devices that send. All but the last are acknowledged. -/
def Link.readBytes : Nat → Link σ → List Octet × Link σ
  | 0, l => ([], l)
  | n + 1, l =>
    let r := l.read w (decide (n ≠ 0))
    let q := Link.readBytes n r.2
    (r.1 :: q.1, q.2)

/-- Whether the address was acknowledged, and how many of the bytes. -/
def Link.sendMessage (address : Octet) (bytes : List Octet) (l : Link σ) : Bool × Nat × Link σ :=
  let r := l.select w address
  if r.1 then
    let q := r.2.writeBytes w bytes
    (true, q.1, q.2.stop w)
  else (false, 0, r.2.stop w)

def Link.receiveMessage (address : Octet) (n : Nat) (l : Link σ) : Bool × List Octet × Link σ :=
  let r := l.select w address
  if r.1 then
    let q := r.2.readBytes w n
    (true, q.1, q.2.stop w)
  else (false, [], r.2.stop w)

variable {w} {l : Link σ}

/-- A step between two bytes that cuts off no device, wakes none and turns none around. -/
structure Link.Goes (w : Wiring σ) (l l' : Link σ) : Prop where
  joined : w.joined l'.state = w.joined l.state
  mode : ∀ i, l'.mode i = l.mode i ∨ l'.mode i = .idle

omit [Fintype ι] in
/-- A message goes on over a link that is clear. -/
theorem Link.Goes.clear {l' : Link σ} (goes : Link.Goes w l l') (clear : l.Clear w) :
    l'.Clear w := by
  intro i apart
  rw [goes.joined] at apart
  rcases goes.mode i with same | idle
  · rw [same, clear i apart]
  · exact idle

omit [Fintype ι] in
/-- A mode that no device was in, no device gets into. -/
theorem Link.Goes.no {l' : Link σ} (goes : Link.Goes w l l') {mode : Mode} (busy : mode ≠ .idle)
    (no : l.No mode) : l'.No mode := by
  intro i here
  rcases goes.mode i with same | idle
  · exact no i (same.symm.trans here)
  · exact busy (here.symm.trans idle)

/-- A byte is written. -/
theorem write_goes (byte : Octet) : Link.Goes w l (l.write w byte).2 where
  joined := by
    apply w.steady
    intro i
    simp only [Link.write]
    split
    · exact .write byte
    · exact .stay
  mode := by
    intro i
    simp only [Link.write]
    split
    next takes =>
      rw [takes.2]
      split
      · exact .inl rfl
      · exact .inr rfl
    · exact .inl rfl

/-- A byte is read. -/
theorem read_goes (acked : Bool) : Link.Goes w l (l.read w acked).2 where
  joined := by
    apply w.steady
    intro i
    simp only [Link.read]
    split
    · exact .sent
    · exact .stay
  mode := by
    intro i
    simp only [Link.read]
    split
    next gives =>
      rw [gives.2]
      cases acked
      · exact .inr rfl
      · exact .inl rfl
    · exact .inl rfl

/-- After a byte that is not acknowledged no device sends. -/
theorem read_last (clear : l.Clear w) : (l.read w false).2.No .giving := by
  intro i
  simp only [Link.read, clear.in_iff (show Mode.giving ≠ .idle by decide)]
  split
  next => simp
  next other => exact other

private theorem select_joined (byte : Octet) :
    w.joined (l.select w byte).2.state = w.joined l.state := by
  apply w.steady
  intro i
  simp only [Link.select]
  split
  · exact .select byte
  · exact .stay

/-- After an address the link is clear. -/
theorem select_clear (idle : l.Idle) (byte : Octet) : (l.select w byte).2.Clear w := by
  intro i apart
  rw [select_joined] at apart
  simp [Link.select, apart, idle i]

/-- After a start the lowest bit of the address decides who sends. -/
theorem select_no (idle : l.Idle) (byte : Octet) :
    (l.select w byte).2.No (if byte.getLsbD 0 then .taking else .giving) := by
  intro i
  simp only [Link.select, idle i]
  split
  · split
    · split <;> simp
    · split <;> simp
  · split <;> simp

/-- An address that nobody acknowledges leaves every device idle. -/
theorem select_refused (idle : l.Idle) {byte : Octet} (refused : (l.select w byte).1 = false) :
    (l.select w byte).2.Idle := by
  intro i
  simp only [Link.select, decide_eq_false_iff_not, not_exists, not_and] at refused
  simp only [Link.select, idle i]
  split
  next joined => rw [if_neg (refused i joined)]
  next => rfl

omit [Fintype ι] in
/-- After a stop the link is idle. -/
theorem stop_idle (clear : l.Clear w) : (l.stop w).Idle := by
  intro i
  unfold Link.stop
  cases joined : w.joined l.state i with
  | true => simp [joined]
  | false => simp [joined, clear i joined]

end Messages

/-! ### One device at a time -/

section Only

variable {σ : Type} (d : Device σ)

/-- The bytes that a device takes, up to the first that it does not acknowledge. -/
def Device.takes : List Octet → σ → Nat × σ
  | [], s => (0, s)
  | byte :: bytes, s =>
    let r := d.write s byte
    if r.1 then
      let q := Device.takes bytes r.2
      (q.1 + 1, q.2)
    else (0, r.2)

/-- The next bytes that a device sends. -/
def Device.gives : Nat → σ → List Octet × σ
  | 0, s => ([], s)
  | n + 1, s =>
    let q := Device.gives n (d.sent s)
    (d.offer s :: q.1, q.2)

variable {ι : Type} [Fintype ι] [DecidableEq ι] {σ : ι → Type} {w : Wiring σ} {l : Link σ}

/-- The devices at the bus see the address, and `i` alone answers it. -/
structure Link.Answers (w : Wiring σ) (l : Link σ) (byte : Octet) (i : ι) : Prop where
  joined : w.joined l.state i = true
  own : ((w.device i).select (l.state i) byte).1 = true
  others : ∀ j, j ≠ i → w.joined l.state j = true →
    ((w.device j).select (l.state j) byte).1 = false

/-- The states of the devices after an address. -/
def Link.selected (w : Wiring σ) (l : Link σ) (byte : Octet) (j : ι) : σ j :=
  if w.joined l.state j then ((w.device j).select (l.state j) byte).2 else l.state j

/-- The states of the devices after a stop. -/
def stopped (w : Wiring σ) (state : ∀ i, σ i) (j : ι) : σ j :=
  if w.joined state j then (w.device j).stop (state j) else state j

/-- Device `i` is in a message and nobody else is. -/
def alone (i : ι) (mode : Mode) (j : ι) : Mode := if j = i then mode else .idle

/-- The one device that answers is the one that is selected. -/
theorem select_only (idle : l.Idle) {byte : Octet} {i : ι} (answers : l.Answers w byte i) :
    l.select w byte = (true, ⟨alone i (if byte.getLsbD 0 then .giving else .taking),
      l.selected w byte⟩) := by
  unfold Link.select
  refine congrArg₂ Prod.mk ?_ ?_
  · rw [decide_eq_true_eq]
    exact ⟨i, answers.joined, answers.own⟩
  · congr 1
    funext j
    unfold alone
    by_cases same : j = i
    · subst same
      rw [if_pos answers.joined, if_pos answers.own, if_pos rfl]
    · rw [if_neg same, idle j]
      split
      next joined =>
        have refused := answers.others j same joined
        simp only [refused, Bool.false_eq_true, if_false]
      next => rfl

omit [Fintype ι] in
private theorem in_alone (mode : Mode) (busy : mode ≠ .idle) {i : ι} {state : ∀ j, σ j}
    (joined : w.joined state i = true) (j : ι) :
    Link.In w ⟨alone i mode, state⟩ mode j ↔ j = i := by
  unfold Link.In alone
  constructor
  · rintro ⟨_, here⟩
    by_contra other
    dsimp only at here
    rw [if_neg other] at here
    exact busy here.symm
  · rintro rfl
    exact ⟨joined, if_pos rfl⟩

omit [Fintype ι] in
/-- What a byte does to one device cuts off none. -/
theorem joined_update {i : ι} {state : ∀ j, σ j} {s : σ i}
    (moves : (w.device i).Moves (state i) s) :
    w.joined (Function.update state i s) = w.joined state := by
  apply w.steady
  intro j
  by_cases same : j = i
  · subst same
    rw [Function.update_self]
    exact moves
  · rw [Function.update_of_ne same]
    exact .stay

private theorem write_alone {i : ι} {state : ∀ j, σ j} (joined : w.joined state i = true)
    (byte : Octet) :
    (⟨alone i .taking, state⟩ : Link σ).write w byte =
      (((w.device i).write (state i) byte).1,
        ⟨alone i (if ((w.device i).write (state i) byte).1 then .taking else .idle),
          Function.update state i ((w.device i).write (state i) byte).2⟩) := by
  have takes := in_alone (w := w) .taking (by decide) joined
  unfold Link.write
  simp only [takes]
  refine congrArg₂ Prod.mk ?_ ?_
  · simp
  · congr 1
    · funext j
      unfold alone
      split
      next same => rw [same]
      next => rfl
    · funext j
      split
      next same => subst same; rw [Function.update_self]
      next other => rw [Function.update_of_ne other]

/-- The rest of a written message concerns device `i` only. -/
theorem writeBytes_only (bytes : List Octet) {i : ι} {state : ∀ j, σ j}
    (joined : w.joined state i = true) :
    ∃ mode, (⟨alone i .taking, state⟩ : Link σ).writeBytes w bytes =
      (((w.device i).takes bytes (state i)).1, ⟨alone i mode,
        Function.update state i ((w.device i).takes bytes (state i)).2⟩) ∧
      w.joined (Function.update state i ((w.device i).takes bytes (state i)).2) =
        w.joined state := by
  induction bytes generalizing state with
  | nil =>
    refine ⟨.taking, ?_⟩
    rw [Link.writeBytes, Device.takes, Function.update_eq_self]
    exact ⟨rfl, rfl⟩
  | cons byte bytes ih =>
    have still : w.joined (Function.update state i ((w.device i).write (state i) byte).2) =
        w.joined state := joined_update (.write byte)
    rw [Link.writeBytes, write_alone joined, Device.takes]
    dsimp only
    -- a refused byte ends the message
    by_cases acked : ((w.device i).write (state i) byte).1 = true
    · obtain ⟨mode, rest, after⟩ := ih ((congrFun still i).trans joined)
      rw [Function.update_self, Function.update_idem] at rest after
      refine ⟨mode, ?_⟩
      simp only [acked, if_true, rest]
      exact ⟨trivial, after.trans still⟩
    · refine ⟨.idle, ?_⟩
      simp only [acked, Bool.false_eq_true, if_false]
      exact ⟨trivial, still⟩

private theorem read_alone {i : ι} {state : ∀ j, σ j} (joined : w.joined state i = true)
    (acked : Bool) :
    (⟨alone i .giving, state⟩ : Link σ).read w acked =
      ((w.device i).offer (state i), ⟨alone i (if acked then .giving else .idle),
        Function.update state i ((w.device i).sent (state i))⟩) := by
  have gives := in_alone (w := w) .giving (by decide) joined
  unfold Link.read Link.offered
  simp only [gives]
  refine congrArg₂ Prod.mk ?_ ?_
  · rw [← ofBits_bits ((w.device i).offer (state i))]
    simp [bits]
  · congr 1
    · funext j
      unfold alone
      split <;> rfl
    · funext j
      split
      next same => subst same; rw [Function.update_self]
      next other => rw [Function.update_of_ne other]

/-- The rest of a message that is read comes from device `i` only. -/
theorem readBytes_only (n : Nat) {i : ι} {state : ∀ j, σ j}
    (joined : w.joined state i = true) :
    ∃ mode, (⟨alone i .giving, state⟩ : Link σ).readBytes w n =
      (((w.device i).gives n (state i)).1, ⟨alone i mode,
        Function.update state i ((w.device i).gives n (state i)).2⟩) ∧
      w.joined (Function.update state i ((w.device i).gives n (state i)).2) =
        w.joined state := by
  induction n generalizing state with
  | zero =>
    refine ⟨.giving, ?_⟩
    rw [Link.readBytes, Device.gives, Function.update_eq_self]
    exact ⟨rfl, rfl⟩
  | succ n ih =>
    have still : w.joined (Function.update state i ((w.device i).sent (state i))) =
        w.joined state := joined_update .sent
    rw [Link.readBytes, read_alone joined, Device.gives]
    dsimp only
    -- the last byte is not acknowledged, and the device lets go
    cases n with
    | zero =>
      refine ⟨.idle, ?_⟩
      simp only [Device.gives]
      exact ⟨rfl, still⟩
    | succ n =>
      obtain ⟨mode, rest, after⟩ := ih ((congrFun still i).trans joined)
      rw [Function.update_self, Function.update_idem] at rest after
      refine ⟨mode, ?_⟩
      rw [if_pos (by simp), rest]
      exact ⟨rfl, after.trans still⟩

omit [Fintype ι] in
private theorem stop_alone {i : ι} {mode : Mode} {state : ∀ j, σ j}
    (joined : w.joined state i = true) :
    (⟨alone i mode, state⟩ : Link σ).stop w = ⟨fun _ => .idle, stopped w state⟩ := by
  unfold Link.stop
  congr 1
  funext j
  unfold alone
  by_cases same : j = i
  · subst same
    rw [if_pos joined]
  · dsimp only
    rw [if_neg same, ite_self]

omit [Fintype ι] [DecidableEq ι] in
theorem Link.Idle.eq (idle : l.Idle) : (⟨fun _ => .idle, l.state⟩ : Link σ) = l := by
  obtain ⟨mode, state⟩ := l
  congr 1
  funext i
  exact (idle i).symm

omit [Fintype ι] [DecidableEq ι] in
theorem stop_all (state : ∀ i, σ i) :
    (⟨fun _ => .idle, state⟩ : Link σ).stop w = ⟨fun _ => .idle, stopped w state⟩ := by
  unfold Link.stop
  congr 1
  funext i
  split <;> rfl

/-- A message to a device that is alone in answering to its address. -/
theorem sendMessage_only (idle : l.Idle) {address : Octet} (even : address.getLsbD 0 = false)
    {i : ι} (answers : l.Answers w address i) (bytes : List Octet) :
    let q := (w.device i).takes bytes (l.selected w address i)
    l.sendMessage w address bytes = (true, q.1,
      ⟨fun _ => .idle, stopped w (Function.update (l.selected w address) i q.2)⟩) := by
  have joined : w.joined (l.selected w address) i = true := by
    have same := select_joined (w := w) (l := l) address
    exact (congrFun same i).trans answers.joined
  obtain ⟨mode, rest, still⟩ := writeBytes_only bytes joined
  intro q
  rw [Link.sendMessage, select_only idle answers, even]
  simp only [if_true, Bool.false_eq_true, if_false]
  rw [rest, stop_alone ((congrFun still i).trans joined)]

/-- A message from a device that is alone in answering to its address. -/
theorem receiveMessage_only (idle : l.Idle) {address : Octet} (odd : address.getLsbD 0 = true)
    {i : ι} (answers : l.Answers w address i) (n : Nat) :
    let q := (w.device i).gives n (l.selected w address i)
    l.receiveMessage w address n = (true, q.1,
      ⟨fun _ => .idle, stopped w (Function.update (l.selected w address) i q.2)⟩) := by
  have joined : w.joined (l.selected w address) i = true := by
    have same := select_joined (w := w) (l := l) address
    exact (congrFun same i).trans answers.joined
  obtain ⟨mode, rest, still⟩ := readBytes_only n joined
  intro q
  rw [Link.receiveMessage, select_only idle answers, odd]
  simp only [if_true]
  rw [rest, stop_alone ((congrFun still i).trans joined)]

omit [DecidableEq ι] in
/-- An address that nobody answers. -/
theorem select_none (idle : l.Idle) {address : Octet}
    (refused : ∀ i, w.joined l.state i = true →
      ((w.device i).select (l.state i) address).1 = false) :
    l.select w address = (false, ⟨fun _ => .idle, l.selected w address⟩) := by
  unfold Link.select
  refine congrArg₂ Prod.mk ?_ ?_
  · rw [decide_eq_false_iff_not]
    rintro ⟨i, joined, acked⟩
    dsimp only at acked
    rw [refused i joined] at acked
    cases acked
  · congr 1
    funext j
    rw [idle j]
    split
    next joined =>
      have refused := refused j joined
      simp only [refused, Bool.false_eq_true, if_false]
    next => rfl

end Only

end WrSwitch.Machine.TwoWire
