import Mathlib.Algebra.Ring.Nat
import Mathlib.Data.Set.Lattice
import Mathlib.Order.CompletePartialOrder

/-!
# Blocks of a Radix

The numbers that agree in all digits above position `k` form a block: those with one
quotient by `b ^ k`. Blocks of one radix are either nested or disjoint, and containment of
blocks can be read off their exponents and quotients.

## Main results

* `block_subset_iff`: containment of blocks in terms of their numbers.
* `block_add_subset`: a block is divided into blocks of a smaller size.
* `disjoint_block_iff`: two blocks have nothing in common exactly when neither contains the
  other.
-/

namespace Blocks

variable {b k l q r : ℕ}

/-- The numbers with quotient `q` by `b ^ k`. -/
def block (b k q : ℕ) : Set ℕ :=
  {a | a / b ^ k = q}

@[simp] theorem mem_block {a : ℕ} : a ∈ block b k q ↔ a / b ^ k = q := Iff.rfl

/-- The first number of a block. -/
theorem mul_mem_block (hb : 0 < b) : q * b ^ k ∈ block b k q :=
  Nat.mul_div_cancel q (Nat.pow_pos hb)

/-- The numbers of a block, counted from the first. -/
theorem mul_add_mem_block {i : ℕ} (hi : i < b ^ k) : q * b ^ k + i ∈ block b k q := by
  rw [mem_block, Nat.mul_comm, Nat.mul_add_div (Nat.zero_lt_of_lt hi), Nat.div_eq_of_lt hi,
    add_zero]

/-- A coarser quotient can be taken of a finer one. -/
theorem div_pow_of_mem {a : ℕ} (hkl : k ≤ l) (ha : a ∈ block b k q) :
    a / b ^ l = q / b ^ (l - k) := by
  rw [mem_block] at ha
  rw [← ha, Nat.div_div_eq_div_mul, ← pow_add, Nat.add_sub_cancel' hkl]

/-- A block is contained in the coarser block with the same upper digits. -/
theorem block_subset_of_div (hkl : k ≤ l) (hq : q / b ^ (l - k) = r) :
    block b k q ⊆ block b l r :=
  fun _ ha => (div_pow_of_mem hkl ha).trans hq

/-- A finer block with other upper digits has nothing in common with a coarser one. -/
theorem disjoint_block_of_div (hkl : k ≤ l) (hq : q / b ^ (l - k) ≠ r) :
    Disjoint (block b k q) (block b l r) :=
  Set.disjoint_left.mpr fun _ ha ha' => hq ((div_pow_of_mem hkl ha).symm.trans ha')

/-- A block is not contained in a finer one: its first number and the one a finer block
further have different finer quotients. -/
theorem not_block_subset_of_lt (hb : 1 < b) (hlk : l < k) :
    ¬ block b k q ⊆ block b l r := by
  intro hsub
  have hpos : 0 < b ^ l := Nat.pow_pos (Nat.zero_lt_of_lt hb)
  have hfirst : q * b ^ k / b ^ l = r := hsub (mul_mem_block (Nat.zero_lt_of_lt hb))
  have hnext : (q * b ^ k + b ^ l) / b ^ l = r := by
    refine hsub ?_
    rw [mem_block, Nat.mul_comm q, Nat.mul_add_div (Nat.pow_pos (Nat.zero_lt_of_lt hb)),
      Nat.div_eq_of_lt (Nat.pow_lt_pow_right hb hlk), add_zero]
  rw [Nat.add_div_right _ hpos, hfirst] at hnext
  exact Nat.succ_ne_self r hnext

/-- **Containment of blocks**: the smaller one is finer, and its coarser quotient is the
quotient of the larger one. -/
theorem block_subset_iff (hb : 1 < b) :
    block b k q ⊆ block b l r ↔ k ≤ l ∧ q / b ^ (l - k) = r := by
  constructor
  · intro hsub
    have hkl : k ≤ l := not_lt.mp fun hlk => not_block_subset_of_lt hb hlk hsub
    have hfirst := hsub (mul_mem_block (Nat.zero_lt_of_lt hb))
    exact ⟨hkl, (div_pow_of_mem hkl (mul_mem_block (Nat.zero_lt_of_lt hb))).symm.trans hfirst⟩
  · rintro ⟨hkl, hq⟩
    exact block_subset_of_div hkl hq

/-- A block that is no coarser than another is contained in it or disjoint from it. -/
theorem block_subset_or_disjoint (hkl : k ≤ l) :
    block b k q ⊆ block b l r ∨ Disjoint (block b k q) (block b l r) := by
  by_cases hq : q / b ^ (l - k) = r
  · exact Or.inl (block_subset_of_div hkl hq)
  · exact Or.inr (disjoint_block_of_div hkl hq)

/-- Blocks of one size with different numbers have nothing in common. -/
theorem disjoint_block_of_ne (h : q ≠ r) : Disjoint (block b k q) (block b k r) :=
  disjoint_block_of_div le_rfl (by rwa [Nat.sub_self, pow_zero, Nat.div_one])

/-- **A block is divided into blocks of a smaller size**, which are numbered one after the
other. -/
theorem block_add_subset (hkl : k ≤ l) {i : ℕ} (hi : i < b ^ (l - k)) :
    block b k (q * b ^ (l - k) + i) ⊆ block b l q :=
  block_subset_of_div hkl (mul_add_mem_block hi)

/-- **Blocks are nested or disjoint**: they have nothing in common exactly when neither
contains the other. -/
theorem disjoint_block_iff (hb : 0 < b) :
    Disjoint (block b k q) (block b l r) ↔
      ¬ block b k q ⊆ block b l r ∧ ¬ block b l r ⊆ block b k q := by
  constructor
  · intro hdisj
    refine ⟨fun hsub => ?_, fun hsub => ?_⟩
    · have hmem : q * b ^ k ∈ block b k q := mul_mem_block hb
      exact Set.disjoint_left.mp hdisj hmem (hsub hmem)
    · have hmem : r * b ^ l ∈ block b l r := mul_mem_block hb
      exact Set.disjoint_left.mp hdisj (hsub hmem) hmem
  · rintro ⟨hkl, hlk⟩
    rcases le_total k l with h | h
    · exact (block_subset_or_disjoint h).resolve_left hkl
    · exact ((block_subset_or_disjoint h).resolve_left hlk).symm

end Blocks
