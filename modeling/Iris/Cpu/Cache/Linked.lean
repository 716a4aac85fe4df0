import Iris.Cpu.Cache.Evict

/-!
Owns the link of LL and SC on one processor: a bit beside the cache, set by LL,
cleared by SC, ERET and every exception, which no movement of lines touches: the
routine an invalidation calls to break the link finds the line and does nothing.
-/

namespace Iris.Cpu.Cache

open BigEndian CpuCache Library.Run

variable {m : Model} {c : CpuCache m} {idx l2Idx physBase virtAddr physAddr : Nat}

/-! ### The instructions -/

namespace CpuCache

variable (c : CpuCache m) (width : Width) (virtAddr physAddr : Nat)

def execLl : Except Fault (BitVec 64) × CpuCache m :=
  match c.read width virtAddr physAddr with
  | (.ok value, c) => (.ok value, { c with lladdr := physAddr / 16 % 2 ^ 32, llbit := true })
  | (.error fault, c) => (.error fault, c)

/-- The answer is what rt becomes. -/
def execSc (val : BitVec 64) : Except Fault (BitVec 64) × CpuCache m :=
  if c.llbit = false then (.ok 0, c)
  else
    match c.write width virtAddr physAddr val with
    | (.ok (), c) => (.ok 1, { c with llbit := false })
    | (.error fault, c) => (.error fault, c)

end CpuCache

/-- What the instructions between LL and SC do to the cache and the link. -/
inductive Between
  | access (op : Op)
  | eret
  | exception
deriving DecidableEq

/-- Neither LL nor SC. -/
def Between.plain : Between → Bool
  | .access (.setLlbit _) | .access (.setLladdr _) => false
  | _ => true

section
variable (direct : m.Direct)
include direct

end

/-! ### Between LL and SC -/

end Iris.Cpu.Cache
