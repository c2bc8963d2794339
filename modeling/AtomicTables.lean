import AtomicTables.Alignment
import AtomicTables.Backend.Basic
import AtomicTables.Backend.Native
import AtomicTables.Backend.Speculative
import AtomicTables.Backend.Wide
import AtomicTables.BitSet
import AtomicTables.Capabilities
import AtomicTables.Compose
import AtomicTables.Event
import AtomicTables.Host
import AtomicTables.Memory
import AtomicTables.MemoryOrder
import AtomicTables.Merge
import AtomicTables.Once
import AtomicTables.Program.Basic
import AtomicTables.Program.Machine
import AtomicTables.Program.Span
import AtomicTables.Program.Word
import AtomicTables.Proofs.Alignment.Contributors
import AtomicTables.Proofs.Alignment.Order
import AtomicTables.Proofs.Alignment.Validity
import AtomicTables.Proofs.Backend.Agreement
import AtomicTables.Proofs.Backend.Atomicity
import AtomicTables.Proofs.Backend.MultiExchange
import AtomicTables.Proofs.Backend.Numbers
import AtomicTables.Proofs.Backend.Preconditions
import AtomicTables.Proofs.Backend.SharedBuffer
import AtomicTables.Proofs.Backend.Words
import AtomicTables.Proofs.BitSet
import AtomicTables.Proofs.Compose
import AtomicTables.Proofs.Host
import AtomicTables.Proofs.Memory
import AtomicTables.Proofs.MemoryOrder
import AtomicTables.Proofs.Merge
import AtomicTables.Proofs.Occurrences
import AtomicTables.Proofs.Program.Closed
import AtomicTables.Proofs.Program.Isolation
import AtomicTables.Proofs.Program.Legs
import AtomicTables.Proofs.Program.OnMemory
import AtomicTables.Proofs.Program.Path
import AtomicTables.Proofs.Program.Span
import AtomicTables.Proofs.Program.Word
import AtomicTables.Proofs.Registry.Candidates
import AtomicTables.Proofs.Registry.Registered
import AtomicTables.Proofs.Registry.Resolution
import AtomicTables.Proofs.Slot.Numbers
import AtomicTables.Proofs.Slot.Object
import AtomicTables.Proofs.Table.Alike
import AtomicTables.Proofs.Table.Features
import AtomicTables.Proofs.Table.Filled
import AtomicTables.Proofs.Table.Merged
import AtomicTables.Proofs.Table.Priority
import AtomicTables.Proofs.Transaction.Accounting
import AtomicTables.Proofs.Transaction.Attempts
import AtomicTables.Proofs.Transaction.Fallback
import AtomicTables.Proofs.Transaction.Nesting
import AtomicTables.Proofs.Transaction.Release
import AtomicTables.Proofs.Transaction.Status
import AtomicTables.Proofs.Transaction.Subscription
import AtomicTables.Registry.Candidates
import AtomicTables.Registry.Entries
import AtomicTables.Registry.Id
import AtomicTables.Registry.Kind
import AtomicTables.Script
import AtomicTables.Slot.Category
import AtomicTables.Slot.Object
import AtomicTables.Slot.Transaction
import AtomicTables.Table.Basic
import AtomicTables.Table.Features
import AtomicTables.Table.Suite
import AtomicTables.Text.Blank
import AtomicTables.Transaction.Attempts
import AtomicTables.Transaction.Status
import AtomicTables.Proofs.Alignment.Checked
import AtomicTables.Proofs.Alignment.Strictness
import AtomicTables.Proofs.Alignment.Straddling
import AtomicTables.Proofs.Table.Neutral
import AtomicTables.Proofs.Capabilities
import AtomicTables.Proofs.Registry.Availability
import AtomicTables.Proofs.Registry.Conversion
import AtomicTables.Proofs.Registry.Pushing
import AtomicTables.Proofs.Transaction.Decoding
