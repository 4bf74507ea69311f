import Mathlib.Data.List.Basic

/-!
# Chains of pointers

The nodes that are visited from a pointer on, in a memory that gives each node the pointer to
the next one. A memory with a loop has no chain through it.
-/
namespace WrSwitch.Machine

variable {α : Type*}

inductive Chain (next : α → Option α) : Option α → List α → Prop
  | nil : Chain next none []
  | cons {a : α} {nodes : List α} (rest : Chain next (next a) nodes) :
      Chain next (some a) (a :: nodes)

/-- There is one chain from a node. -/
theorem Chain.unique {next : α → Option α} {p : Option α} {nodes nodes' : List α}
    (chain : Chain next p nodes) (chain' : Chain next p nodes') : nodes = nodes' := by
  induction chain generalizing nodes' with
  | nil =>
    cases chain'
    rfl
  | cons rest ih =>
    cases chain' with
    | cons rest' => rw [ih rest']

/-- A memory that agrees on the nodes has the same chain. -/
theorem Chain.congr {next next' : α → Option α} {p : Option α} {nodes : List α}
    (chain : Chain next p nodes) (agree : ∀ a ∈ nodes, next' a = next a) :
    Chain next' p nodes := by
  induction chain with
  | nil => exact .nil
  | cons rest ih =>
    rw [List.forall_mem_cons] at agree
    exact .cons (agree.1 ▸ ih agree.2)

/-- A node is still visited when nothing but itself has changed. -/
theorem Chain.mem_of_agree {next next' : α → Option α} {p : Option α} {nodes nodes' : List α}
    {a : α} (chain : Chain next p nodes) (member : a ∈ nodes)
    (agree : ∀ b, b ≠ a → next' b = next b) (chain' : Chain next' p nodes') : a ∈ nodes' := by
  induction chain generalizing nodes' with
  | nil => cases member
  | @cons b nodes rest ih =>
    cases chain' with
    | cons rest' =>
      by_cases same : b = a
      · exact same ▸ List.mem_cons_self
      · -- the walk goes on behind `b` as before
        rw [agree b same] at rest'
        have later := (List.mem_cons.mp member).resolve_left (Ne.symm same)
        exact List.mem_cons_of_mem _ (ih later rest')

end WrSwitch.Machine
