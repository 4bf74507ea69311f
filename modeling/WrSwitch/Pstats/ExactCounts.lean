import WrSwitch.Pstats.System

/-!
# Exact statistics

What a readout leaves in `cntrs` is the number of events since the port was zeroed. The
offset is subtracted in place: where it is larger than the 16 bits from the FPGA, the borrow
stays in the part that the driver keeps.
-/
namespace WrSwitch.Pstats

open Machine

variable (cfg : Config)

/-- No overflow is pending at a readout or a zeroing of the port. -/
def Settled (s : System) : Event cfg → Prop
  | .read p | .zero p => ∀ c < cfg.counters, s.raised p c = s.added p c
  | .count _ _ | .irq _ _ | .tlet => True

instance (s : System) : ∀ e, Decidable (Settled cfg s e)
  | .read p | .zero p =>
    inferInstanceAs (Decidable (∀ c < cfg.counters, s.raised p c = s.added p c))
  | .count _ _ | .irq _ _ | .tlet => isTrue trivial

/-- A readout gives the events since the last zeroing, and so does one right after it. -/
def ReadExact (s : System) : Event cfg → Prop
  | .read p => ∀ c < cfg.counters,
      (s.read cfg p).dev.cntrs p c = BitVec.ofNat 64 (s.since p c) ∧
      ((s.read cfg p).read cfg p).dev.cntrs p c = (s.read cfg p).dev.cntrs p c
  | .count _ _ | .irq _ _ | .tlet | .zero _ => True

/-- No offset of the port is larger than the 16 bits from the FPGA. -/
def NoBorrow (s : System) : Event cfg → Prop
  | .read p => ∀ c < cfg.counters, (s.dev.zeros p c).toNat ≤ s.hw p c
  | .count _ _ | .irq _ _ | .tlet | .zero _ => True

/-! ### One counter -/

private theorem low_lt (s : System) (p c : Nat) : s.hw p c < 65536 := Nat.mod_lt _ (by decide)

/-- A second readout gives the first one's value unless the subtraction borrowed. -/
theorem reread_iff {high low offset : Nat} (lowFits : low < 65536) (offsetFits : offset < 65536) :
    ((high * 65536 + low + (2 ^ 64 - offset)) % 2 ^ 64 / 65536 * 65536 + low + (2 ^ 64 - offset)) %
      2 ^ 64 = (high * 65536 + low + (2 ^ 64 - offset)) % 2 ^ 64 ↔ offset ≤ low := by
  omega

/-- The driver's part of a counter. -/
def System.high (s : System) (p c : Nat) : Nat := (s.dev.cntrs p c).toNat / 65536

private theorem System.high_lt (s : System) (p c : Nat) : s.high p c < 2 ^ 48 := by
  have bound := (s.dev.cntrs p c).isLt
  rw [System.high]
  omega

private theorem System.read_cntrs (s : System) {p c : Nat} (port : p < cfg.nports)
    (cntr : c < cfg.counters) :
    ((s.read cfg p).dev.cntrs p c).toNat =
      (s.high p c * 65536 + s.hw p c + (2 ^ 64 - (s.dev.zeros p c).toNat)) % 2 ^ 64 := by
  have delivered := s.hwcnt_eq (lt_of_lt_of_le port cfg.portsFit)
    (lt_of_lt_of_le cntr cfg.countersFit)
  have low := low_lt s p c
  have updated : (s.read cfg p).dev.cntrs p c =
      rdCntr (s.dev.zeros p c) (hwcnt s.regs p c) (s.dev.cntrs p c) := by
    simp [System.read, pstatsRdCntrs_eq, cntr]
  rw [updated, rdCntr_toNat _ _ _ (by omega), delivered, System.high]

private theorem System.reread_cntrs (s : System) {p c : Nat} (port : p < cfg.nports)
    (cntr : c < cfg.counters) :
    ((s.read cfg p).read cfg p).dev.cntrs p c = (s.read cfg p).dev.cntrs p c ↔
      (s.dev.zeros p c).toNat ≤ s.hw p c := by
  have again := (s.read cfg p).read_cntrs cfg port cntr
  have zeros : (s.read cfg p).dev.zeros = s.dev.zeros := by
    rw [System.read, pstatsRdCntrs_eq]
  have hw : (s.read cfg p).hw p c = s.hw p c := rfl
  rw [← BitVec.toNat_inj, again, System.high, zeros, hw, s.read_cntrs cfg port cntr]
  exact reread_iff (low_lt s p c) (s.dev.zeros p c).isLt

/-! ### The account -/

/-- What the driver and the FPGA have of a counter, and the overflows on the way between them,
are the events since the zeroing and those before it that the offset stands for. -/
def Balanced (s : System) (p c : Nat) : Prop :=
  (s.high p c * 65536 + s.hw p c + 65536 * s.raised p c) % 2 ^ 64 =
    (s.since p c + (s.dev.zeros p c).toNat + 65536 * s.added p c) % 2 ^ 64

def Accounted (s : System) : Prop := ∀ p < cfg.nports, ∀ c < cfg.counters, Balanced s p c

private theorem accounted_init : Accounted cfg System.init := by
  intro p _ c _
  simp [Balanced, System.high, System.hw, System.init, CntrsDev.cleared]

variable {cfg}

private theorem System.read_value {s : System} {p c : Nat} (port : p < cfg.nports)
    (cntr : c < cfg.counters) (balanced : Balanced s p c) (settled : s.raised p c = s.added p c) :
    (s.read cfg p).dev.cntrs p c = BitVec.ofNat 64 (s.since p c) := by
  have value := s.read_cntrs cfg port cntr
  have small := (s.dev.zeros p c).isLt
  apply BitVec.eq_of_toNat_eq
  rw [value, BitVec.toNat_ofNat]
  rw [Balanced, settled] at balanced
  omega

private theorem readExact_iff {s : System} {e : Event cfg} (accounted : Accounted cfg s)
    (settled : Settled cfg s e) : ReadExact cfg s e ↔ NoBorrow cfg s e := by
  cases e with
  | read p =>
    apply forall_congr'
    intro c
    apply imp_congr_right
    intro cntr
    rw [s.reread_cntrs cfg p.isLt cntr]
    exact and_iff_right (System.read_value p.isLt cntr (accounted p p.isLt c cntr)
      (settled c cntr))
  | count _ _ | irq _ _ | tlet | zero _ => exact Iff.rfl

/-! ### Steps keep the account -/

/-- An event that is counted keeps the balance. -/
theorem Balanced.count {s : System} {p c : Nat} (balanced : Balanced s p c) (p' c' : Nat) :
    Balanced (s.count p' c') p c := by
  by_cases here : p = p' ∧ c = c'
  · obtain ⟨rfl, rfl⟩ := here
    have raised : (s.count p c).raised p c = s.raised p c +
        if (s.events p c + 1) % 2 ^ pstatsMsbShift = 0 then 1 else 0 := by
      simp only [System.count]
      split
      · exact setAt_self _ _ _ _
      · rfl
    have events : (s.count p c).events p c = s.events p c + 1 := setAt_self _ _ _ _
    have since : (s.count p c).since p c = s.since p c + 1 := setAt_self _ _ _ _
    have dev : (s.count p c).dev = s.dev ∧ (s.count p c).added = s.added := ⟨rfl, rfl⟩
    rw [Balanced, System.high, System.hw, raised, events, since, dev.1, dev.2]
    rw [Balanced, System.high, System.hw] at balanced
    rw [pstatsMsbShift] at balanced ⊢
    -- the low part wraps exactly if a flag is raised
    split <;> omega
  · have raised : (s.count p' c').raised p c = s.raised p c := by
      simp only [System.count]
      split
      · exact setAt_other _ _ here
      · rfl
    have events : (s.count p' c').events p c = s.events p c := setAt_other _ _ here
    have since : (s.count p' c').since p c = s.since p c := setAt_other _ _ here
    have dev : (s.count p' c').dev = s.dev := rfl
    rwa [Balanced, System.high, System.hw, raised, events, since, dev]

private theorem addOverflow_high (s : System) (p c : Nat) :
    ((addOverflow p c s.dev).cntrs p c).toNat / 65536 = (s.high p c + 1) % 2 ^ 48 := by
  have added : (addOverflow p c s.dev).cntrs p c =
      s.dev.cntrs p c + (1 : BitVec 64) <<< pstatsMsbShift := setAt_self _ _ _ _
  have one : ((1 : BitVec 64) <<< pstatsMsbShift).toNat = 65536 := rfl
  have bound := (s.dev.cntrs p c).isLt
  rw [added, BitVec.toNat_add, one, System.high]
  omega

private theorem carry_balanced {high low raised since offset added : Nat}
    (balanced : (high * 65536 + low + 65536 * raised) % 2 ^ 64 =
      (since + offset + 65536 * added) % 2 ^ 64) :
    ((high + 1) % 2 ^ 48 * 65536 + low + 65536 * raised) % 2 ^ 64 =
      (since + offset + 65536 * (added + 1)) % 2 ^ 64 := by
  have wrapped : (high + 1) % 2 ^ 48 * 65536 = (high + 1) * 65536 % 2 ^ 64 :=
    (Nat.mul_mod_mul_right 65536 (high + 1) (2 ^ 48)).symm
  rw [wrapped, Nat.add_assoc, Nat.mod_add_mod]
  omega

/-- A step of the tasklet keeps the balance. -/
theorem Balanced.tletStep {s : System} {p c : Nat} (balanced : Balanced s p c) :
    Balanced (s.tletStep cfg) p c := by
  obtain ⟨zeros, events, since, raised⟩ := s.tletStep_frame cfg
  rw [Balanced, System.high, System.hw, zeros, events, since, raised]
  rcases s.tletStep_adds cfg with ⟨cntrs, added⟩ | ⟨p', c', cntrs, added⟩
  · rwa [cntrs, added]
  · rw [cntrs, added]
    by_cases here : p = p' ∧ c = c'
    · obtain ⟨rfl, rfl⟩ := here
      rw [addOverflow_high, bump, setAt_self]
      exact carry_balanced balanced
    · have other : (addOverflow p' c' s.dev).cntrs p c = s.dev.cntrs p c := setAt_other _ _ here
      rwa [other, bump, setAt_other _ _ here]

/-- Reading keeps the balance as long as nothing is borrowed. -/
theorem Balanced.read {s : System} {p c : Nat} (balanced : Balanced s p c) {p' : Nat}
    (port : p < cfg.nports) (cntr : c < cfg.counters)
    (noBorrow : p = p' → (s.dev.zeros p c).toNat ≤ s.hw p c) :
    Balanced (s.read cfg p') p c := by
  have zeros : (s.read cfg p').dev.zeros = s.dev.zeros := by
    rw [System.read, pstatsRdCntrs_eq]
  have high : (s.read cfg p').high p c = s.high p c := by
    by_cases here : p = p'
    · subst here
      have value := s.read_cntrs cfg port cntr
      -- without a borrow the low bits are the difference, and the high bits stay
      have enough := noBorrow rfl
      have low := low_lt s p c
      have bound := s.high_lt p c
      rw [System.high, value]
      omega
    · simp [System.high, System.read, pstatsRdCntrs_eq, here]
  have same : (s.read cfg p').hw p c = s.hw p c ∧ (s.read cfg p').raised = s.raised ∧
      (s.read cfg p').since = s.since ∧ (s.read cfg p').added = s.added :=
    ⟨rfl, rfl, rfl, rfl⟩
  rwa [Balanced, high, zeros, same.1, same.2.1, same.2.2.1, same.2.2.2]

/-- Zeroing takes the offset back first, so a borrow does no harm to it. -/
theorem System.zero_cntrs (s : System) {p c : Nat} (port : p < cfg.nports)
    (cntr : c < cfg.counters) :
    ((s.zero cfg p).dev.cntrs p c).toNat = s.hw p c ∧
      ((s.zero cfg p).dev.zeros p c).toNat = s.hw p c := by
  have value := s.read_cntrs cfg port cntr
  have fits : c < pstatsMaxNumOfCounters := lt_of_lt_of_le cntr cfg.countersFit
  have low := low_lt s p c
  have offset := (s.dev.zeros p c).isLt
  have rdZeros : (pstatsRdCntrs cfg s.regs p s.dev).zeros = s.dev.zeros := by
    rw [pstatsRdCntrs_eq]
  rw [System.read] at value
  -- adding the old offset back gives the hardware counter again
  have joined : (((pstatsRdCntrs cfg s.regs p s.dev).cntrs p c +
      (s.dev.zeros p c).setWidth 64) &&& pstatsLsbMsk).toNat = s.hw p c := by
    rw [lsb_toNat, BitVec.toNat_add, value, BitVec.toNat_setWidth]
    omega
  constructor
  · simp only [System.zero, pstatsZero_eq, rdZeros, fits, and_self, if_true, joined]
  · simp only [System.zero, pstatsZero_eq, rdZeros, fits, and_self, if_true,
      BitVec.toNat_setWidth, joined]
    omega

/-- Zeroing keeps the balance where all overflows are added. -/
theorem Balanced.zero {s : System} {p c : Nat} (balanced : Balanced s p c) {p' : Nat}
    (port : p < cfg.nports) (cntr : c < cfg.counters)
    (settled : p = p' → s.raised p c = s.added p c) : Balanced (s.zero cfg p') p c := by
  by_cases here : p = p'
  · subst here
    obtain ⟨cntrs, zeros⟩ := s.zero_cntrs port cntr
    have low := low_lt s p c
    have same : (s.zero cfg p).hw p c = s.hw p c ∧ (s.zero cfg p).raised = s.raised ∧
        (s.zero cfg p).added = s.added := ⟨rfl, rfl, rfl⟩
    -- the count starts over, with no overflow left on the way
    have restarted : (s.zero cfg p).since p c = 0 := by simp [System.zero]
    rw [Balanced, System.high, cntrs, zeros, same.1, same.2.1, same.2.2, settled rfl, restarted]
    omega
  · have cntrs : (s.zero cfg p').dev.cntrs p c = s.dev.cntrs p c := by
      simp [System.zero, pstatsZero_eq, pstatsRdCntrs_eq, here]
    have zeros : (s.zero cfg p').dev.zeros p c = s.dev.zeros p c := by
      simp [System.zero, pstatsZero_eq, pstatsRdCntrs_eq, here]
    have since : (s.zero cfg p').since p c = s.since p c := by simp [System.zero, here]
    have same : (s.zero cfg p').hw p c = s.hw p c ∧ (s.zero cfg p').raised = s.raised ∧
        (s.zero cfg p').added = s.added := ⟨rfl, rfl, rfl⟩
    rwa [Balanced, System.high, cntrs, zeros, since, same.1, same.2.1, same.2.2]

/-- Every step keeps the counts. -/
theorem Accounted.step {s : System} {e : Event cfg} (accounted : Accounted cfg s)
    (settled : Settled cfg s e) (noBorrow : NoBorrow cfg s e) : Accounted cfg (s.step cfg e) := by
  intro p port c cntr
  have balanced := accounted p port c cntr
  cases e with
  | count p' c' => exact balanced.count p' c'
  | irq irqs flags => exact balanced
  | tlet => exact balanced.tletStep
  | read p' => exact balanced.read port cntr fun here => here ▸ noBorrow c cntr
  | zero p' => exact balanced.zero port cntr fun here => here ▸ settled c cntr

/-- Where no overflow is pending at readouts and zeroings, all readouts are exact if and only
if none of them borrows. -/
theorem reads_exact_iff (es : List (Event cfg))
    (settled : Along (Settled cfg) (System.step cfg) .init es) :
    Along (ReadExact cfg) (System.step cfg) .init es ↔
      Along (NoBorrow cfg) (System.step cfg) .init es :=
  Along.congr_inv_of (Accounted cfg) (fun _ _ accounted => accounted.step)
    (fun _ _ accounted => readExact_iff accounted) (accounted_init cfg) settled

/-- Two reads after zeroing, with one event between. -/
theorem reads_exact_twice :
    Along (ReadExact .single) (System.step .single) .init
      [.count single.port single.cntr, .read single.port, .zero single.port,
        .count single.port single.cntr, .read single.port, .read single.port] := by
  refine (reads_exact_iff _ (by decide)).mpr ⟨trivial, ?_, trivial, trivial, ?_, ?_, trivial⟩
  all_goals
    intro c cntr
    obtain rfl : c = 0 := Nat.lt_one_iff.mp cntr
    decide

/-! ### A borrow -/

private theorem run_count (s : System) (p : Fin cfg.nports) (c : Fin cfg.counters) (n : Nat) :
    run (System.step cfg) s (List.replicate n (.count p c)) =
      { s with
        events := setAt s.events p c (s.events p c + n)
        since := setAt s.since p c (s.since p c + n)
        raised := setAt s.raised p c
          (s.raised p c + ((s.events p c + n) / 65536 - s.events p c / 65536)) } := by
  induction n with
  | zero =>
    have same (f : Nat → Nat → Nat) : setAt f p c (f p c) = f := by
      funext i j
      simp only [setAt]
      split
      next here => rw [here.1, here.2]
      · rfl
    simp [same]
  | succ n ih =>
    -- the second store to a counter hides the first
    have again (f : Nat → Nat → Nat) (v w : Nat) :
        setAt (setAt f p c v) p c w = setAt f p c w := by
      funext i j
      simp only [setAt]
      split <;> rfl
    rw [List.replicate_succ', run_concat, ih]
    simp only [System.step, System.count, bump, setAt_self, again, pstatsMsbShift]
    congr 1
    -- the low half of the counter wraps, or does not
    split
    next wraps =>
      congr 1
      omega
    next stays =>
      congr 1
      omega

/-- A port zeroed after one event, 65535 events and the processing of the overflow. -/
def wrapped : List (Event .single) :=
  [.count single.port single.cntr, .zero single.port] ++
    List.replicate 65535 (.count single.port single.cntr) ++
    .irq 1 (fun _ => (1, 0)) :: List.replicate 10 .tlet

/-- The offset is 1, the counter in the FPGA is 0, and the overflow is added. -/
theorem run_wrapped : (run (System.step .single) .init wrapped).raised 0 0 =
      (run (System.step .single) .init wrapped).added 0 0 ∧
    ((run (System.step .single) .init wrapped).dev.zeros 0 0).toNat = 1 ∧
    (run (System.step .single) .init wrapped).hw 0 0 = 0 := by
  rw [wrapped, run_append, run_append, run_count]
  decide

private theorem settled_replicate (cfg : Config) (e : Event cfg) (free : ∀ s, Settled cfg s e)
    (s : System) (n : Nat) :
    Along (Settled cfg) (System.step cfg) s (List.replicate n e) := by
  induction n generalizing s with
  | zero => trivial
  | succ n ih => exact ⟨free s, ih _⟩

private theorem borrow_differs (s : System) (settled : s.raised 0 0 = s.added 0 0)
    (offset : (s.dev.zeros 0 0).toNat = 1) (low : s.hw 0 0 = 0) :
    Settled .single s (.read single.port) ∧ ¬ReadExact .single s (.read single.port) := by
  constructor
  · intro c cntr
    obtain rfl : c = 0 := Nat.lt_one_iff.mp cntr
    exact settled
  · intro exact
    have same := (exact 0 (by decide)).2
    have noBorrow := (System.reread_cntrs .single s (p := 0) (by decide) (by decide)).mp same
    omega

/-- With the counter in the FPGA below its offset a read is not exact, although all overflows are
added. -/
theorem reread_differs :
    Along (Settled .single) (System.step .single) .init (wrapped ++ [.read single.port]) ∧
      ¬Along (ReadExact .single) (System.step .single) .init (wrapped ++ [.read single.port]) := by
  obtain ⟨settled, offset, low⟩ := run_wrapped
  obtain ⟨ready, differs⟩ := borrow_differs _ settled offset low
  have before : Along (Settled .single) (System.step .single) .init wrapped := by
    rw [wrapped, Along.append, Along.append]
    refine ⟨⟨by decide, ?_⟩, trivial, ?_⟩
    · exact settled_replicate .single (.count single.port single.cntr) (fun _ => trivial) _ _
    · exact settled_replicate .single .tlet (fun _ => trivial) _ _
  constructor
  · exact Along.append.mpr ⟨before, ready, trivial⟩
  · intro along
    exact differs (Along.append.mp along).2.1

end WrSwitch.Pstats
