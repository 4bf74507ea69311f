import Mathlib.Data.List.Nodup
import Mathlib.Data.List.Pairwise

/-!
# Rows made of keyed items

Every item of a list has a key of its own, and makes some rows with keys of another kind.
-/
namespace WrSwitch.Machine

variable {α β κ γ : Type*}

/-- The keys of the rows differ exactly if no two items make rows of one key. -/
theorem rowKeys_nodup_iff (items : List α) (key : α → κ) (rows : α → List β) (rowKey : β → γ)
    (distinct : (items.map key).Nodup) (each : ∀ a ∈ items, ((rows a).map rowKey).Nodup) :
    ((items.flatMap rows).map rowKey).Nodup ↔
      ∀ a ∈ items, ∀ b ∈ items, key a ≠ key b →
        ∀ x ∈ rows a, ∀ y ∈ rows b, rowKey x ≠ rowKey y := by
  rw [List.map_flatMap, List.nodup_flatMap]
  constructor
  · rintro ⟨-, apart⟩ a ha b hb differ x hx y hy same
    have : Std.Symm (Function.onFun List.Disjoint fun a => (rows a).map rowKey) :=
      ⟨fun a b disjoint k inB inA => disjoint inA inB⟩
    have disjoint := apart.forall ha hb fun equal => differ (by rw [equal])
    exact disjoint (List.mem_map_of_mem hx) (same ▸ List.mem_map_of_mem hy)
  · intro apart
    refine ⟨each, ?_⟩
    have whole := List.Nodup.of_map key distinct
    refine whole.pairwise_of_forall_ne fun a ha b hb differ k inA inB => ?_
    obtain ⟨x, hx, rfl⟩ := List.mem_map.mp inA
    obtain ⟨y, hy, same⟩ := List.mem_map.mp inB
    -- different items have different keys, so their rows are apart
    have keys : key a ≠ key b := fun equal =>
      differ (List.inj_on_of_nodup_map distinct ha hb equal)
    exact apart a ha b hb keys x hx y hy same.symm

end WrSwitch.Machine
