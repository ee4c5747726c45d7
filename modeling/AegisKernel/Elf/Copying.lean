import AegisKernel.Library.Copies
import AegisKernel.Elf.Segments

/-!
# ELF loading — `memcpy` within the image

Nothing keeps the destination of a segment off the file image in memory. `memcpy`
copies upwards, so a destination behind its source gets the bytes before it over and
over again (`Library.Copies`).
-/

namespace AegisKernel.Elf

open Library

/-- **`memcpy`, overlapping or not.** Byte `k` of the destination is byte `k` modulo the
distance of the source; nothing else changes; and the copy is exact exactly when the
part of the source that is overwritten before it is read had those bytes already. -/
theorem memcpy_repeats (s : State) (dst src n : Word) :
    let d := (dst - src).toNat
    let s' := s.memcpy dst src n.toNat
    (∀ k < n.toNat, s'.mem (dst + BitVec.ofNat 64 k) = s.mem (src + BitVec.ofNat 64 (k % d))) ∧
      (∀ a : Word, n.toNat ≤ (a - dst).toNat → s'.mem a = s.mem a) ∧
      ((∀ k < n.toNat, s'.mem (dst + BitVec.ofNat 64 k) = s.mem (src + BitVec.ofNat 64 k)) ↔
        ∀ k, k + d < n.toNat → s.mem (dst + BitVec.ofNat 64 k) = s.mem (src + BitVec.ofNat 64 k)) := by
  intro d s'
  have hn : n.toNat ≤ 2 ^ 64 := Nat.le_of_lt n.isLt
  have hmem : s'.mem = copyUp s.mem dst src n.toNat := congrArg State.mem (memcpy_eq s dst src _)
  rw [hmem]
  refine ⟨fun k hk => copyUp_repeat hn hk, fun a ha => ?_, copyUp_exact_iff hn⟩
  exact copyUp_outside fun hspan => absurd ((mem_span_iff hn).mp hspan) (by omega)

end AegisKernel.Elf
