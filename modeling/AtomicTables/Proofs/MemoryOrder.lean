import AtomicTables.MemoryOrder

namespace AtomicTables.MemoryOrder

theorem loadable_loadFence (order : MemoryOrder) : order.loadFence.loadable := by
  cases order <;> rfl

theorem storable_storeFence (order : MemoryOrder) : order.storeFence.storable := by
  cases order <;> rfl

theorem validFailure_failureOrder (order : MemoryOrder) : order.validFailure order.failureOrder := by
  cases order <;> decide

end AtomicTables.MemoryOrder
