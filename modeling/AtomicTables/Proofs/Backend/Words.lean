import AtomicTables.Backend.Native
import AtomicTables.Backend.Wide
import AtomicTables.Proofs.MemoryOrder
import AtomicTables.Proofs.Program.Word

namespace AtomicTables

def Orders.Fit (orders : Orders) : ObjectSlot → Prop
  | .store => orders.success.validForStore
  | .load | .testBit => orders.success.validForLoad
  | .compareExchange _ => orders.success.validFailure orders.failure
  | _ => True

theorem Orders.fit_of_admits {s : ObjectSlot} {order : MemoryOrder} (admits : s.admits order) :
    Orders.Fit ⟨order, order.failureOrder⟩ s := by
  cases s with
  | store | load | testBit => exact admits
  | compareExchange => exact order.validFailure_failureOrder
  | exchange | changeBit | binary | unary => trivial

variable [FlagSpace]

namespace Native
open Program

theorem faithful_cell (n object : Nat) (orders : Orders) : (cell n object orders).Faithful object where
  load m := by
    refine onMemory_seq (onMemory_require (MemoryOrder.loadable_loadFence _) _ m) ?_
    exact Word.onMemory_read n object m
  store v m := by
    refine onMemory_seq (onMemory_require (MemoryOrder.storable_storeFence _) _ m) ?_
    exact Word.onMemory_write object v m
  update f m := by
    refine onMemory_seq (onMemory_require (MemoryOrder.loadable_loadFence _) _ m) ?_
    refine onMemory_seq (Word.onMemory_read n object m) ?_
    exact onMemory_seq (Word.onMemory_write object _ m) rfl
  compareExchange expected desired m := by
    refine onMemory_seq (onMemory_require (MemoryOrder.loadable_loadFence _) _ m) ?_
    exact Word.onMemory_replaceIf n object expected desired m

omit [FlagSpace] in
theorem orderViolation?_of_fit {s : ObjectSlot} {orders : Orders} (fit : orders.Fit s) :
    orderViolation? s orders = none := by
  cases s with
  | store | load | testBit | compareExchange => exact if_pos fit
  | exchange | changeBit | binary | unary => rfl

theorem table_implicit {width : UInt64} (native : width.toNat ∈ widths) (order : MemoryOrder) (s : ObjectSlot) :
    (backend.implicit width order).table s =
      if s.admits order then some (operation width.toNat ⟨order, order.failureOrder⟩ s) else none := by
  simp only [backend, implicit, native, if_true]

theorem table_explicit {width : UInt64} (native : width.toNat ∈ widths) (s : ObjectSlot) :
    (backend.explicit width).table s = some (explicitOperation width.toNat s) := by
  simp only [backend, explicit, native, if_true]

theorem tables {width : UInt64} (native : width.toNat ∈ widths) {s : ObjectSlot} {order : MemoryOrder}
    (admits : s.admits order) {orders : Orders} (fit : orders.Fit s) :
    ∃ implicit explicit, (backend.implicit width order).table s = some implicit ∧
      (backend.explicit width).table s = some explicit ∧
      ∀ o, implicit o = operation width.toNat ⟨order, order.failureOrder⟩ s o ∧
        explicit o orders = operation width.toNat orders s o := by
  refine ⟨_, _, (table_implicit native order s).trans (if_pos admits), table_explicit native s, ?_⟩
  refine fun o => ⟨rfl, ?_⟩
  rw [explicitOperation, orderViolation?_of_fit fit]

end Native

namespace Wide
open Program

theorem onMemory_exchangeIf (object : Nat) (expected desired : BitVec (8 * width)) (m : Memory) :
    (exchangeIf object expected desired).onMemory m =
      some (.ok (m.word object width, decide (m.word object width = expected)),
        if m.word object width = expected then m.putWord object desired else m) :=
  Word.onMemory_replaceIf width object expected desired m

theorem onMemory_load (object : Nat) (m : Memory) :
    (load object).onMemory m = some (.ok (m.word object width), m) := by
  have unchanged :
      (if m.word object width = 0 then m.putWord object (0 : BitVec (8 * width)) else m) = m := by
    split
    · rename_i zero
      rw [← zero, Memory.putWord_word]
    · rfl
  refine onMemory_seq (onMemory_exchangeIf object 0 0 m) ?_
  rw [unchanged]
  rfl

theorem onMemory_update (object : Nat) (f : BitVec (8 * width) → BitVec (8 * width)) (m : Memory) :
    (update object f).onMemory m =
      some (.ok (m.word object width), m.putWord object (f (m.word object width))) := by
  refine onMemory_seq (onMemory_load object m) ?_
  refine onMemory_seq (onMemory_exchangeIf object _ _ m) ?_
  simp

theorem faithful_cell (object : Nat) : (cell object).Faithful object where
  load := onMemory_load object
  store _ m := onMemory_seq (onMemory_update object _ m) rfl
  update := onMemory_update object
  compareExchange := onMemory_exchangeIf object

omit [FlagSpace] in
theorem orderViolation?_of_fit {s : ObjectSlot} {orders : Orders} (fit : orders.Fit s) :
    orderViolation? s orders = none := by
  cases s with
  | compareExchange => exact if_pos fit
  | store | load | testBit | exchange | changeBit | binary | unary => rfl

theorem table_implicit {bytes : UInt64} (wide : bytes.toNat = width) (order : MemoryOrder) (s : ObjectSlot) :
    (backend.implicit bytes order).table s = if s.admits order then some (operation s) else none := by
  simp only [backend, implicit, wide, if_true]

theorem table_explicit {bytes : UInt64} (wide : bytes.toNat = width) (s : ObjectSlot) :
    (backend.explicit bytes).table s = some (explicitOperation s) := by
  simp only [backend, explicit, wide, if_true]

theorem tables {bytes : UInt64} (wide : bytes.toNat = width) {s : ObjectSlot} {order : MemoryOrder}
    (admits : s.admits order) {orders : Orders} (fit : orders.Fit s) :
    ∃ implicit explicit, (backend.implicit bytes order).table s = some implicit ∧
      (backend.explicit bytes).table s = some explicit ∧
      ∀ o, implicit o = operation s o ∧ explicit o orders = operation s o := by
  refine ⟨_, _, (table_implicit wide order s).trans (if_pos admits), table_explicit wide s, ?_⟩
  refine fun o => ⟨rfl, ?_⟩
  rw [explicitOperation, orderViolation?_of_fit fit]

end Wide

end AtomicTables
