import Nightfall.Consensus.Clock
import Nightfall.Library.BoundedMap
import Nightfall.Library.GuardedRun

/-!
# Block download

Pages of blocks arrive out of order.  `applyIbdPage` ingests a page that meets the chain
and buffers one that starts above it.
-/

namespace Nightfall

open Std

variable {P : Primitives}

def maxBlocksPerRequest : Nat := 128

def ibdPage : UInt64 := UInt64.ofNat maxBlocksPerRequest

/-- Do not run more than this many heights ahead of our tip. -/
def ibdMaxAhead : UInt64 := ibdPage * 4

/-- How many pages wait at most. -/
def ibdBufferLen : Nat := 8

structure IbdState (P : Primitives) where
  chain : Chain P
  /-- Start of the next page to ask for. -/
  ibdFrom : UInt64
  /-- Pages that start above the chain, by their first height. -/
  ibdBuffer : ExtTreeMap UInt64 (List Block) compare

inductive IbdPage where
  | applied (count : Nat)
  | buffered
  | duplicate
  | rejected
  deriving DecidableEq

/-- Height of the next block this chain will accept. -/
def nextNeededHeight (chain : Chain P) : UInt64 :=
  match chain.tipHeight with
  | some height => Machine.saturatingAdd height 1
  | none => 0

/-- Next start height to ask for, and where the cursor stands afterwards. -/
def nextIbdClaim (nextNeeded ibdFrom : UInt64) : UInt64 × UInt64 :=
  let ibdFrom := if ibdFrom < nextNeeded then nextNeeded else ibdFrom
  if ibdFrom ≥ Machine.saturatingAdd nextNeeded ibdMaxAhead then (nextNeeded, ibdFrom)
  else (ibdFrom, Machine.saturatingAdd ibdFrom ibdPage)

/-- A claim never asks for what the chain has. -/
theorem le_nextIbdClaim (nextNeeded ibdFrom : UInt64) :
    nextNeeded ≤ (nextIbdClaim nextNeeded ibdFrom).1 := by
  have reset : nextNeeded ≤ if ibdFrom < nextNeeded then nextNeeded else ibdFrom := by
    split
    · exact UInt64.le_refl nextNeeded
    · next notBelow => exact UInt64.not_lt.mp notBelow
  simp only [nextIbdClaim]
  generalize (if ibdFrom < nextNeeded then nextNeeded else ibdFrom) = cursor at reset ⊢
  split
  · exact UInt64.le_refl nextNeeded
  · exact reset

namespace IbdState

def next (st : IbdState P) : UInt64 :=
  nextNeededHeight st.chain

/-- Buffer a page that starts above the chain, and give up the highest ones. -/
def bufferPage (st : IbdState P) (start : UInt64) (blocks : List Block) : IbdState P :=
  let buffer := st.ibdBuffer.insert start blocks
  { st with ibdBuffer := BoundedMap.shrink ibdBufferLen buffer.size buffer }

/-- Ingest buffered pages as long as one starts exactly at the next height.  Returns how
many blocks were applied. -/
def drain (nowUnix : UInt64) : Nat → Nat → IbdState P → Nat × IbdState P
  | 0, applied, st => (applied, st)
  | fuel + 1, applied, st =>
      match st.ibdBuffer[st.next]? with
      | none => (applied, st)
      | some page =>
          let (verdict, chain) := st.chain.tryIngestBlocks page nowUnix
          let taken := { st with chain := chain, ibdBuffer := st.ibdBuffer.erase st.next }
          match verdict with
          | .ok (count + 1) => drain nowUnix fuel (applied + (count + 1)) taken
          | _ => (applied, taken)

/-- Ingest a page that meets the chain, and what the buffer holds behind it. -/
def ingestPage (st : IbdState P) (start : UInt64) (blocks : List Block) (nowUnix : UInt64) :
    IbdPage × IbdState P :=
  let (verdict, chain) := st.chain.tryIngestBlocks blocks nowUnix
  let (applied, drained) :=
    drain nowUnix st.ibdBuffer.size (verdict.toOption.getD 0) { st with chain := chain }
  let claimed := { drained with ibdFrom := max drained.ibdFrom drained.next }
  (if applied > 0 then .applied applied
    else if drained.next > st.next then .duplicate
    else if start = st.next then .rejected
    else .duplicate,
   claimed)

def applyIbdPage (st : IbdState P) (blocks : List Block) (nowUnix : UInt64) :
    IbdPage × IbdState P :=
  match blocks with
  | [] => (.duplicate, st)
  | first :: rest =>
      let start := first.header.height
      if start > st.next then (.buffered, st.bufferPage start blocks)
      else if ((first :: rest).getLast (by simp)).header.height < st.next then (.duplicate, st)
      else st.ingestPage start blocks nowUnix

end IbdState

end Nightfall
