import Mathlib.Data.Nat.Notation
import Mathlib.Logic.Function.Basic

/-!
# Hash chains

A chain hashes a sequence of items one after the other, each together with the digest of the item
before it. If the hash is injective in both arguments, the digest at a position determines every item
up to that position.
-/

namespace Nelssa.Foundation.HashChain

variable {δ α : Type*}

/-- The digest of every item; the first one is hashed with a seed. -/
def chain (hash : δ → α → δ) (seed : δ) (items : ℕ → α) : ℕ → δ
  | 0 => hash seed (items 0)
  | pos + 1 => hash (chain hash seed items pos) (items (pos + 1))

variable {hash : δ → α → δ} {seed : δ} {items others : ℕ → α}

theorem chain_congr {pos : ℕ} (hsame : ∀ index ≤ pos, items index = others index) :
    chain hash seed items pos = chain hash seed others pos := by
  induction pos with
  | zero => rw [chain, chain, hsame 0 (Nat.le_refl 0)]
  | succ pos ih =>
    rw [chain, chain, ih fun index hidx ↦ hsame index (Nat.le_succ_of_le hidx), hsame _ (Nat.le_refl _)]

theorem chain_eq_iff (hhash : Function.Injective2 hash) (pos : ℕ) :
    chain hash seed items pos = chain hash seed others pos ↔ ∀ index ≤ pos, items index = others index := by
  refine ⟨fun h ↦ ?_, chain_congr⟩
  induction pos with
  | zero =>
    intro index hidx
    rw [Nat.le_zero.1 hidx]
    exact (hhash h).2
  | succ pos ih =>
    intro index hidx
    obtain ⟨hparent, hitem⟩ := hhash h
    rcases Nat.le_succ_iff.1 hidx with hle | rfl
    · exact ih hparent index hle
    · exact hitem

end Nelssa.Foundation.HashChain
