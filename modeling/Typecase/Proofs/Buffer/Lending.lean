import Typecase.Buffer.Ledger
import Typecase.Proofs.Buffer.Tidiness

/-!
# Lending and giving back

A ledger hands buffers out, takes them back, and hands them out again. Beside it stand two books
that the acts alone determine: what every slot holds if no buffer is ever used again
(`Ledger.Plain`), and the pool that the buffer in every slot comes from (`Ledger.origins`).

* **Pools.** A pool `IsInOrder` if it has one shelf for a size, and on it at most
  `Pool.shelfLimit` buffers of that size. Taking from a pool and giving back to it keep it in order,
  and touch one shelf (`Pool.shelf_reserve`, `Pool.shelf_release`).
* **Acts.** After any acts the ledger `IsBooked`: its pools are in order, and every buffer on loan
  belongs to the pool that it comes from. One act keeps this (`Ledger.IsBooked.perform`), and does to
  the bytes what it does without pools (`Ledger.contents_perform`).

`Ledger.reuse_is_invisible` puts both together, for any acts on any number of pools.
-/

namespace Typecase

/-! ### Pools in order -/

namespace Pool

variable {p : Pool}

/-- There is one shelf for a size, with at most `shelfLimit` buffers, all of that size. -/
structure IsInOrder (p : Pool) : Prop where
  once : (p.shelves.map Prod.fst).Nodup
  limited : ∀ s ∈ p.shelves, s.2.length ≤ shelfLimit
  filed : ∀ s ∈ p.shelves, ∀ b ∈ s.2, b.size = s.1

theorem isInOrder_empty : empty.IsInOrder := ⟨List.nodup_nil, by simp [empty], by simp [empty]⟩

/-- A shelf is listed unless it is empty. -/
theorem shelf_eq_nil_or_mem (p : Pool) (size : Nat) :
    p.shelf size = [] ∨ (size, p.shelf size) ∈ p.shelves := by
  rw [shelf]
  cases h : p.shelves.lookup size with
  | none => exact .inl rfl
  | some buffers =>
    obtain ⟨front, rest, hshelves, -⟩ := List.lookup_eq_some_iff.mp h
    refine .inr ?_
    rw [hshelves]
    exact List.mem_append_right front List.mem_cons_self

theorem IsInOrder.length_shelf_le (h : p.IsInOrder) (size : Nat) :
    (p.shelf size).length ≤ shelfLimit := by
  rcases p.shelf_eq_nil_or_mem size with hnil | hmem
  · rw [hnil]
    exact Nat.zero_le _
  · exact h.limited _ hmem

theorem IsInOrder.isTidy (h : p.IsInOrder) : p.IsTidy := by
  intro size b hb
  rcases p.shelf_eq_nil_or_mem size with hnil | hmem
  · rw [hnil] at hb
    contradiction
  · exact h.filed _ hmem b hb

theorem mem_replaceIn {size : Nat} {buffers : List Bytes} {shelves : List (Nat × List Bytes)}
    {s : Nat × List Bytes} (h : s ∈ replaceIn size buffers shelves) :
    s = (size, buffers) ∨ s ∈ shelves := by
  induction shelves with
  | nil => exact .inl (List.mem_singleton.mp h)
  | cons t rest ih =>
    rw [replaceIn] at h
    split at h
    · exact (List.mem_cons.mp h).imp_right (List.mem_cons_of_mem t)
    · rcases List.mem_cons.mp h with rfl | h
      · exact .inr List.mem_cons_self
      · exact (ih h).imp_right (List.mem_cons_of_mem t)

theorem map_fst_replaceIn (size : Nat) (buffers : List Bytes)
    (shelves : List (Nat × List Bytes)) : (replaceIn size buffers shelves).map Prod.fst =
      if size ∈ shelves.map Prod.fst then shelves.map Prod.fst
      else shelves.map Prod.fst ++ [size] := by
  induction shelves with
  | nil => rfl
  | cons t rest ih =>
    rw [replaceIn]
    by_cases ht : t.1 = size
    · rw [if_pos ht, List.map_cons, List.map_cons, if_pos (by simp [ht]), ht]
    · have hmem : size ∈ (t :: rest).map Prod.fst ↔ size ∈ rest.map Prod.fst := by
        simp only [List.map_cons, List.mem_cons, Ne.symm ht, false_or]
      rw [if_neg ht, List.map_cons, ih]
      simp only [hmem]
      split <;> rfl

theorem IsInOrder.setShelf (h : p.IsInOrder) {size : Nat} {buffers : List Bytes}
    (hlength : buffers.length ≤ shelfLimit) (hsize : ∀ b ∈ buffers, b.size = size) :
    (p.setShelf size buffers).IsInOrder where
  once := by
    rw [Pool.setShelf, map_fst_replaceIn]
    split
    · exact h.once
    · rename_i hnew
      refine List.nodup_append.mpr ⟨h.once, by simp, fun n hn m hm => ?_⟩
      rw [List.mem_singleton.mp hm]
      exact fun heq => hnew (heq ▸ hn)
  limited s hs := by
    rcases mem_replaceIn hs with rfl | hs
    · exact hlength
    · exact h.limited s hs
  filed s hs := by
    rcases mem_replaceIn hs with rfl | hs
    · exact hsize
    · exact h.filed s hs

theorem IsInOrder.reserve (h : p.IsInOrder) (size : Nat) : (p.reserve size).2.IsInOrder := by
  have hlength := h.length_shelf_le size
  have htidy := h.isTidy size
  rw [Pool.reserve]
  cases hs : p.shelf size with
  | nil => exact h
  | cons b rest =>
    rw [hs] at hlength htidy
    exact h.setShelf (Nat.le_of_succ_le hlength) fun c hc => htidy c (List.mem_cons_of_mem b hc)

theorem IsInOrder.release (h : p.IsInOrder) (b : Bytes) : (p.release b).IsInOrder := by
  rw [Pool.release]
  split
  · rename_i hroom
    refine h.setShelf hroom fun c hc => ?_
    rcases List.mem_cons.mp hc with rfl | hc
    · rfl
    · exact h.isTidy b.size c hc
  · exact h

/-- A reservation takes one buffer from its shelf if there is one. -/
theorem shelf_reserve (p : Pool) (size n : Nat) : (p.reserve size).2.shelf n =
    if n = size then (p.shelf n).tail else p.shelf n := by
  rw [reserve]
  cases hs : p.shelf size with
  | nil =>
    dsimp only
    split
    · rename_i hn
      rw [hn, hs]
      rfl
    · rfl
  | cons b rest =>
    dsimp only
    rw [shelf_setShelf]
    split
    · rename_i hn
      rw [hn, hs]
      rfl
    · rfl

/-- A buffer goes back to the shelf of its size unless the shelf is full. -/
theorem shelf_release (p : Pool) (b : Bytes) (n : Nat) : (p.release b).shelf n =
    if n = b.size ∧ (p.shelf n).length < shelfLimit then b :: p.shelf n else p.shelf n := by
  rw [release]
  split
  · rename_i hroom
    rw [shelf_setShelf]
    by_cases hn : n = b.size
    · rw [if_pos hn, hn, if_pos ⟨rfl, hroom⟩]
    · rw [if_neg hn, if_neg fun h => hn h.1]
  · rename_i hfull
    rw [if_neg]
    rintro ⟨rfl, hroom⟩
    exact hfull hroom

end Pool

namespace Ledger

variable {l : Ledger} {count : Nat}

/-! ### One act on the books -/

theorem pool_set (l : Ledger) (k n : Nat) (q : Pool) (slots : List (Option Loan)) :
    (⟨l.pools.set k q, slots⟩ : Ledger).pool n =
      if n = k ∧ k < l.pools.length then q else l.pool n := by
  simp only [pool, List.getD_eq_getElem?_getD, List.getElem?_set]
  by_cases hn : k = n
  · subst hn
    by_cases hk : k < l.pools.length <;> simp [hk]
  · simp [hn, Ne.symm hn]

theorem perform_reserve (l : Ledger) (k size : Nat) : l.perform (.reserve k size) =
    l.lend k ((l.pool k).reserve size).1 ((l.pool k).reserve size).2 := rfl

variable {slot : Nat} {b : Loan}

theorem perform_copy_of_eq_some (h : l.loan? slot = some b) : l.perform (.copy slot) =
    l.lend b.pool ((l.pool b.pool).copy b.bytes).1 ((l.pool b.pool).copy b.bytes).2 := by
  rw [perform, h]

theorem perform_copy_of_eq_none (h : l.loan? slot = none) :
    l.perform (.copy slot) = { l with slots := l.slots ++ [none] } := by
  rw [perform, h]

theorem perform_drop_of_eq_some (h : l.loan? slot = some b) : l.perform (.drop slot) =
    ⟨l.pools.set b.pool ((l.pool b.pool).release b.bytes), l.slots.set slot none⟩ := by
  rw [perform, h]

theorem perform_drop_of_eq_none (h : l.loan? slot = none) : l.perform (.drop slot) = l := by
  rw [perform, h]

/-! ### Bytes -/

theorem join_getElem?_contents (l : Ledger) (slot : Nat) :
    (l.contents[slot]?).join = (l.loan? slot).map Loan.bytes := by
  rw [contents, List.getElem?_map, loan?]
  cases l.slots[slot]? with
  | none => rfl
  | some s => rfl

theorem contents_lend (l : Ledger) (k : Nat) (bytes : Bytes) (rest : Pool) :
    (l.lend k bytes rest).contents = l.contents ++ [some bytes] := by
  simp [contents, lend]

/-- Emptying a slot that is empty, or that does not exist, changes nothing. -/
private theorem set_none_eq_self {held : List (Option Bytes)} (h : (held[slot]?).join = none) :
    held.set slot none = held := by
  refine List.ext_getElem? fun i => ?_
  rw [List.getElem?_set]
  split
  · rename_i hi
    subst hi
    cases hs : held[slot]? with
    | none => rw [if_neg (Nat.not_lt.mpr (List.getElem?_eq_none_iff.mp hs))]
    | some s =>
      rw [hs] at h
      obtain rfl : s = none := h
      rw [if_pos (List.getElem?_eq_some_iff.mp hs).1]
  · rfl

/-- **An act does to the bytes what it does without pools**, if the pools are tidy. -/
theorem contents_perform (h : ∀ n, (l.pool n).IsTidy) (a : Act) :
    (l.perform a).contents = Plain.perform l.contents a := by
  cases a with
  | reserve k size =>
    rw [perform_reserve, contents_lend, Pool.fst_reserve (h k)]
    rfl
  | write slot start bytes =>
    refine List.ext_getElem? fun i => ?_
    simp only [perform, Plain.perform, contents, List.getElem?_map, List.getElem?_modify]
    cases l.slots[i]? with
    | none => rfl
    | some s =>
      by_cases hi : slot = i
      · cases s <;> simp [hi]
      · simp [hi]
  | copy slot =>
    rw [Plain.perform, join_getElem?_contents]
    cases hloan : l.loan? slot with
    | none => simp [perform_copy_of_eq_none hloan, contents]
    | some b =>
      rw [perform_copy_of_eq_some hloan, contents_lend, Pool.fst_copy (h b.pool)]
      rfl
  | drop slot =>
    rw [Plain.perform]
    cases hloan : l.loan? slot with
    | none =>
      have hempty := l.join_getElem?_contents slot
      rw [hloan] at hempty
      rw [perform_drop_of_eq_none hloan, set_none_eq_self hempty]
    | some b =>
      rw [perform_drop_of_eq_some hloan, contents, List.map_set]
      rfl

/-! ### Where buffers come from -/

/-- The act reserves from one of the first `count` pools, if it reserves. -/
def Act.IsWithin (count : Nat) : Act → Prop
  | .reserve pool _ => pool < count
  | _ => True

instance (count : Nat) : DecidablePred (Act.IsWithin count)
  | .reserve pool _ => inferInstanceAs (Decidable (pool < count))
  | .write .. => isTrue trivial
  | .copy _ => isTrue trivial
  | .drop _ => isTrue trivial

/-- Enters where the buffer in a new slot comes from: a reserved buffer from the pool that was
asked, a copy from the pool that its original comes from. -/
def note (noted : List (Option Nat)) : Act → List (Option Nat)
  | .reserve pool _ => noted ++ [some pool]
  | .write .. => noted
  | .copy slot => noted ++ [(noted[slot]?).join]
  | .drop _ => noted

/-- The pool that the buffer in each slot comes from, by the acts alone. -/
def origins (acts : List Act) : List (Option Nat) := acts.foldl note []

/-- The ledger has `count` pools, all in order, and every buffer on loan belongs to the pool that it
comes from. -/
structure IsBooked (count : Nat) (noted : List (Option Nat)) (l : Ledger) : Prop where
  pools : l.pools.length = count
  order : ∀ n, (l.pool n).IsInOrder
  slots : noted.length = l.slots.length
  origin : ∀ slot b, l.loan? slot = some b →
    b.pool < count ∧ (noted[slot]?).join = some b.pool

variable {noted : List (Option Nat)}

theorem isBooked_ofCount (count : Nat) : (ofCount count).IsBooked count [] where
  pools := List.length_replicate
  order n := by
    have hpool : (ofCount count).pool n = .empty := by
      rw [pool, ofCount, List.getD_eq_getElem?_getD, List.getElem?_replicate]
      split <;> rfl
    rw [hpool]
    exact Pool.isInOrder_empty
  slots := rfl
  origin slot b hb := by
    rw [loan?, ofCount, List.getElem?_nil] at hb
    contradiction

/-- Replacing a pool by another one in order keeps all pools in order. -/
theorem IsBooked.order_set (h : l.IsBooked count noted) (k : Nat) {q : Pool}
    (hq : q.IsInOrder) (slots : List (Option Loan)) (n : Nat) :
    ((⟨l.pools.set k q, slots⟩ : Ledger).pool n).IsInOrder := by
  rw [pool_set]
  split
  · exact hq
  · exact h.order n

theorem loan?_concat (l : Ledger) (pools : List Pool) (s : Option Loan) (slot : Nat) :
    (⟨pools, l.slots ++ [s]⟩ : Ledger).loan? slot =
      if slot = l.slots.length then s else l.loan? slot := by
  rw [loan?, loan?]
  split
  · rename_i hslot
    rw [hslot, List.getElem?_concat_length]
    rfl
  · rename_i hslot
    rw [List.getElem?_append]
    split
    · rfl
    · rw [List.getElem?_eq_none (by simp; omega), List.getElem?_eq_none (by omega)]

/-- A new slot is opened, and it is entered where its buffer comes from, if it has one. -/
theorem IsBooked.concat (h : l.IsBooked count noted) {pools : List Pool} {s : Option Loan}
    {origin : Option Nat} (hpools : pools.length = l.pools.length)
    (horder : ∀ n, ((⟨pools, l.slots ++ [s]⟩ : Ledger).pool n).IsInOrder)
    (hs : ∀ b, s = some b → b.pool < count ∧ origin = some b.pool) :
    (⟨pools, l.slots ++ [s]⟩ : Ledger).IsBooked count (noted ++ [origin]) where
  pools := hpools.trans h.pools
  order := horder
  slots := by rw [List.length_append, List.length_append, h.slots]; rfl
  origin slot b hb := by
    rw [loan?_concat] at hb
    split at hb
    · rename_i hslot
      rw [hslot, ← h.slots, List.getElem?_concat_length]
      exact hs b hb
    · obtain ⟨hpool, horigin⟩ := h.origin slot b hb
      have hold : slot < noted.length := by
        refine Nat.lt_of_not_le fun hnew => ?_
        rw [List.getElem?_eq_none hnew] at horigin
        contradiction
      rw [List.getElem?_append_left hold]
      exact ⟨hpool, horigin⟩

/-- A buffer from pool number `k` is entered in a new slot. -/
theorem IsBooked.lend (h : l.IsBooked count noted) {k : Nat} (hk : k < count) (bytes : Bytes)
    {rest : Pool} (hrest : rest.IsInOrder) :
    (l.lend k bytes rest).IsBooked count (noted ++ [some k]) := by
  refine h.concat (List.length_set ..) (h.order_set k hrest _) fun b hb => ?_
  obtain rfl := Option.some.inj hb
  exact ⟨hk, rfl⟩

/-- An act that opens no slot, and leaves every buffer with its pool. -/
theorem IsBooked.of_loans {l' : Ledger} (h : l.IsBooked count noted)
    (hpools : l'.pools.length = l.pools.length) (horder : ∀ n, (l'.pool n).IsInOrder)
    (hslots : l'.slots.length = l.slots.length)
    (hloans : ∀ slot b, l'.loan? slot = some b →
      ∃ old, l.loan? slot = some old ∧ old.pool = b.pool) : l'.IsBooked count noted where
  pools := hpools.trans h.pools
  order := horder
  slots := h.slots.trans hslots.symm
  origin slot b hb := by
    obtain ⟨old, hold, hpool⟩ := hloans slot b hb
    rw [← hpool]
    exact h.origin slot old hold

theorem loan?_write (l : Ledger) (slot start : Nat) (bytes : List UInt8) (i : Nat) :
    (l.perform (.write slot start bytes)).loan? i = (l.loan? i).map fun b =>
      if slot = i then { b with bytes := Strip.lay b.bytes ⟨start, bytes⟩ } else b := by
  simp only [perform, loan?, List.getElem?_modify]
  cases l.slots[i]? with
  | none => rfl
  | some s =>
    by_cases hi : slot = i
    · cases s <;> simp [hi]
    · cases s <;> simp [hi]

/-- **Every act keeps the books.** -/
theorem IsBooked.perform (h : l.IsBooked count noted) {a : Act} (ha : a.IsWithin count) :
    (l.perform a).IsBooked count (note noted a) := by
  cases a with
  | reserve k size =>
    rw [perform_reserve]
    exact h.lend ha _ ((h.order k).reserve size)
  | write slot start bytes =>
    refine h.of_loans rfl h.order (List.length_modify ..) fun i b hb => ?_
    rw [loan?_write] at hb
    obtain ⟨old, hold, rfl⟩ := Option.map_eq_some_iff.mp hb
    refine ⟨old, hold, ?_⟩
    split <;> rfl
  | copy slot =>
    rw [note]
    cases hloan : l.loan? slot with
    | some b =>
      obtain ⟨hpool, horigin⟩ := h.origin slot b hloan
      rw [perform_copy_of_eq_some hloan, horigin]
      exact h.lend hpool _ ((h.order b.pool).reserve b.bytes.size)
    | none =>
      rw [perform_copy_of_eq_none hloan]
      exact h.concat rfl h.order fun b hb => by contradiction
  | drop slot =>
    rw [note]
    cases hloan : l.loan? slot with
    | some b =>
      rw [perform_drop_of_eq_some hloan]
      refine h.of_loans (List.length_set ..) (h.order_set _ ((h.order b.pool).release _) _)
        (List.length_set ..) fun i c hc => ⟨c, ?_, rfl⟩
      rw [loan?, List.getElem?_set] at hc
      split at hc
      · split at hc <;> contradiction
      · exact hc
    | none =>
      rw [perform_drop_of_eq_none hloan]
      exact h

theorem IsBooked.performAll (h : l.IsBooked count noted) {acts : List Act}
    (hacts : ∀ a ∈ acts, a.IsWithin count) :
    (l.performAll acts).IsBooked count (acts.foldl note noted) ∧
      (l.performAll acts).contents = acts.foldl Plain.perform l.contents := by
  induction acts generalizing l noted with
  | nil => exact ⟨h, rfl⟩
  | cons a acts ih =>
    obtain ⟨hfirst, hrest⟩ := List.forall_mem_cons.mp hacts
    have hcontents := contents_perform (fun n => (h.order n).isTidy) a
    obtain ⟨hbooked, hbytes⟩ := ih (h.perform hfirst) hrest
    rw [hcontents] at hbytes
    exact ⟨hbooked, hbytes⟩

/-! ### What an act does to the free buffers -/

/-- Pool number `k` has one buffer of a size less, if it had one, and the other free buffers are
the same. -/
def Takes (l l' : Ledger) (k size : Nat) : Prop :=
  ∀ n m, (l'.pool n).shelf m =
    if n = k ∧ m = size then ((l.pool n).shelf m).tail else (l.pool n).shelf m

/-- Pool number `k` has one more buffer of the size of `bytes`, unless it has `Pool.shelfLimit` of
them, and the other free buffers are the same. -/
def GetsBack (l l' : Ledger) (k : Nat) (bytes : Bytes) : Prop :=
  ∀ n m, (l'.pool n).shelf m =
    if n = k ∧ m = bytes.size ∧ ((l.pool n).shelf m).length < Pool.shelfLimit then
      bytes :: (l.pool n).shelf m
    else (l.pool n).shelf m

theorem takes_lend (l : Ledger) {k : Nat} (hk : k < l.pools.length) (size : Nat)
    (bytes : Bytes) : Takes l (l.lend k bytes ((l.pool k).reserve size).2) k size := by
  intro n m
  rw [lend, pool_set]
  by_cases hn : n = k
  · subst hn
    rw [if_pos ⟨rfl, hk⟩, Pool.shelf_reserve]
    simp only [true_and]
  · rw [if_neg fun h => hn h.1, if_neg fun h => hn h.1]

theorem getsBack_drop (h : l.loan? slot = some b) (hb : b.pool < l.pools.length) :
    GetsBack l (l.perform (.drop slot)) b.pool b.bytes := by
  intro n m
  rw [perform_drop_of_eq_some h, pool_set]
  by_cases hn : n = b.pool
  · subst hn
    rw [if_pos ⟨rfl, hb⟩, Pool.shelf_release]
    simp only [true_and]
  · rw [if_neg fun h => hn h.1, if_neg fun h => hn h.1]

/-- **Reuse is invisible.** Let any acts be carried out on any number of pools. Every slot holds the
bytes that it would hold if each reservation made a new buffer of zeros and each copy an independent
one. Every pool has at most `Pool.shelfLimit` free buffers of a size, filed under their size. A
buffer that is dropped goes back to the pool that it was reserved from, or its original if it is a
copy, unless there are enough buffers of its size. A copy or a reservation takes a buffer of its size
from the pool, if there is one. No other free buffers change, and writing changes none. -/
theorem reuse_is_invisible {acts : List Act} (hacts : ∀ a ∈ acts, a.IsWithin count) :
    let l := (ofCount count).performAll acts
    l.contents = acts.foldl Plain.perform [] ∧
      (∀ n, (l.pool n).IsInOrder) ∧
      (∀ slot b, l.loan? slot = some b →
        ((origins acts)[slot]?).join = some b.pool ∧
          GetsBack l (l.perform (.drop slot)) b.pool b.bytes ∧
          Takes l (l.perform (.copy slot)) b.pool b.bytes.size) ∧
      (∀ k < count, ∀ size, Takes l (l.perform (.reserve k size)) k size) ∧
      ∀ slot start bytes, (l.perform (.write slot start bytes)).pools = l.pools := by
  intro l
  obtain ⟨hbooked, hcontents⟩ := (isBooked_ofCount count).performAll hacts
  refine ⟨hcontents, hbooked.order, fun slot b hb => ?_, fun k hk size => ?_,
    fun slot start bytes => rfl⟩
  · obtain ⟨hpool, horigin⟩ := hbooked.origin slot b hb
    have hexists : b.pool < l.pools.length := hbooked.pools.symm ▸ hpool
    refine ⟨horigin, getsBack_drop hb hexists, ?_⟩
    rw [perform_copy_of_eq_some hb]
    exact takes_lend l hexists b.bytes.size _
  · rw [perform_reserve]
    exact takes_lend l (hbooked.pools.symm ▸ hk) size _

/-- A buffer is used again and copied, beside a buffer of another pool. -/
theorem reuse_is_invisible_in_two_pools :
    let acts : List Act := [.reserve 0 2, .write 0 0 [7, 8], .reserve 1 2, .drop 0, .reserve 0 2,
      .write 2 1 [9], .copy 2, .drop 1]
    let l := (ofCount 2).performAll acts
    (∀ a ∈ acts, a.IsWithin 2) ∧ l.contents = [none, none, some #[0, 9], some #[0, 9]] ∧
      (∀ n, (l.pool n).IsInOrder) ∧ (origins acts)[3]? = some (some 0) ∧
      GetsBack l (l.perform (.drop 3)) 0 #[0, 9] ∧ Takes l (l.perform (.reserve 1 2)) 1 2 := by
  intro acts l
  have hacts : ∀ a ∈ acts, a.IsWithin 2 := by decide
  obtain ⟨hbytes, horder, hloans, htakes, -⟩ := reuse_is_invisible hacts
  have hcontents : l.contents = [none, none, some #[0, 9], some #[0, 9]] :=
    hbytes.trans (by decide)
  obtain ⟨b, hb, hlast⟩ : ∃ b, l.loan? 3 = some b ∧ b.bytes = #[0, 9] := by
    rw [← Option.map_eq_some_iff, ← join_getElem?_contents, hcontents]
    rfl
  obtain ⟨horigin, hback, -⟩ := hloans 3 b hb
  have hpool : 0 = b.pool := Option.some.inj horigin
  rw [← hpool, hlast] at hback
  exact ⟨hacts, hcontents, horder, rfl, hback, htakes 1 (by decide) 2⟩

end Ledger

end Typecase
