import Typecase.Buffer.Pool

/-!
# Buffers on loan

A `Ledger` keeps the books for several pools and the buffers taken from them. Every buffer has
a slot, numbered in order of creation, which says which pool it goes back to.

`Ledger.Plain` is the same book-keeping without pools: every reservation is a new zero-filled
buffer and every copy an independent one. That pools cannot be seen in the bytes is a statement
about the two side by side.
-/

namespace Typecase

/-- A buffer on loan and the number of its pool. -/
structure Loan where
  pool : Nat
  bytes : Bytes
  deriving DecidableEq, Repr

/-- Pools, and the buffers taken from them by slot; the slot of a dropped buffer is empty. -/
structure Ledger where
  pools : List Pool
  slots : List (Option Loan)
  deriving DecidableEq, Repr

namespace Ledger

/-- One act of book-keeping. -/
inductive Act where
  | reserve (pool size : Nat)
  | write (slot start : Nat) (bytes : List UInt8)
  | copy (slot : Nat)
  | drop (slot : Nat)
  deriving DecidableEq, Repr

/-- A ledger of `n` pools without buffers. -/
def ofCount (n : Nat) : Ledger := ⟨List.replicate n .empty, []⟩

/-- The pool with a number; one that does not exist is empty. -/
def pool (l : Ledger) (n : Nat) : Pool := l.pools.getD n .empty

/-- The buffer in a slot. -/
def loan? (l : Ledger) (slot : Nat) : Option Loan := (l.slots[slot]?).join

/-- Opens a slot for a buffer taken from pool number `pool`, which becomes `rest`. -/
def lend (l : Ledger) (pool : Nat) (bytes : Bytes) (rest : Pool) : Ledger :=
  ⟨l.pools.set pool rest, l.slots ++ [some ⟨pool, bytes⟩]⟩

/-- Carries out one act. The copy of an empty slot is an empty slot; any other act on an empty
slot changes nothing. -/
def perform (l : Ledger) : Act → Ledger
  | .reserve pool size =>
    let (bytes, rest) := (l.pool pool).reserve size
    l.lend pool bytes rest
  | .write slot start bytes =>
    { l with slots := l.slots.modify slot fun s =>
        s.map fun b => { b with bytes := Strip.lay b.bytes ⟨start, bytes⟩ } }
  | .copy slot =>
    match l.loan? slot with
    | some b =>
      let (bytes, rest) := (l.pool b.pool).copy b.bytes
      l.lend b.pool bytes rest
    | none => { l with slots := l.slots ++ [none] }
  | .drop slot =>
    match l.loan? slot with
    | some b => ⟨l.pools.set b.pool ((l.pool b.pool).release b.bytes), l.slots.set slot none⟩
    | none => l

/-- Carries out acts in order. -/
def performAll (l : Ledger) (acts : List Act) : Ledger := acts.foldl perform l

/-- Drops every buffer, in slot order. -/
def dropAll (l : Ledger) : Ledger :=
  l.performAll ((List.range l.slots.length).map .drop)

/-- The bytes in each slot. -/
def contents (l : Ledger) : List (Option Bytes) := l.slots.map fun s => s.map Loan.bytes

/-- Book-keeping without pools: what each slot holds. -/
abbrev Plain := List (Option Bytes)

namespace Plain

/-- Carries out one act with an allocator that never reuses a buffer. -/
def perform (l : Plain) : Act → Plain
  | .reserve _ size => l ++ [some (Array.replicate size 0)]
  | .write slot start bytes => l.modify slot fun s => s.map fun b => Strip.lay b ⟨start, bytes⟩
  | .copy slot => l ++ [(l[slot]?).join]
  | .drop slot => l.set slot none

end Plain

end Ledger

end Typecase
