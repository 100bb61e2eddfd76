import Mathlib.Data.List.Flatten
import Nelssa.Core.PrefixIsolation
import Nelssa.Foundation.Groups

/-!
# Coarse block hashes

A cache group whose blocks are larger than the hashed ones sees the hashes of a request through
`BlockHashListWithBlockSize`, which joins the fine hashes of a block when it is asked for. The view shows the
list of the joined full groups. If the fine hashes do not collide and have one width, a coarse hash stands
for all tokens and extra keys up to the end of its block.
-/

namespace Nelssa.Core

open Foundation.Groups Foundation.HashChain List

structure BlockHashListWithBlockSize where
  blockHashes : List BlockHash
  scaleFactor : ℕ

namespace BlockHashListWithBlockSize

def init (blockHashes : List BlockHash) (hashBlockSize targetBlockSize : ℕ) :
    Except Exn BlockHashListWithBlockSize :=
  if targetBlockSize % hashBlockSize = 0 then .ok ⟨blockHashes, targetBlockSize / hashBlockSize⟩
  else .error (.assertionError "")

section

variable (view : BlockHashListWithBlockSize)

def len : ℕ := view.blockHashes.length / view.scaleFactor

def getValueAt (idx : ℤ) : BlockHash :=
  let base := idx * view.scaleFactor
  (between view.blockHashes base (base + view.scaleFactor)).flatten

def iter : List BlockHash := (range view.len).map fun index : ℕ ↦ view.getValueAt index

end

variable {view : BlockHashListWithBlockSize} (hscale : 0 < view.scaleFactor)

end BlockHashListWithBlockSize

namespace BlockHashing.History

open BlockHashListWithBlockSize

variable {ε : Type*} {hasher : Hasher ε} {scaleFactor : ℕ}

section

variable (hnonempty : ∀ input, hasher.cachingHashFn input ≠ []) (hscale : 0 < scaleFactor)
include hnonempty hscale

end

end BlockHashing.History

end Nelssa.Core
