import SecmemAlloc.SecAlloc.Representation
import SecmemAlloc.SecAlloc.Placement
import SecmemAlloc.SecAlloc.LastAllocation
import SecmemAlloc.SecAlloc.StackDiscipline
import SecmemAlloc.SecAlloc.Provenance
import SecmemAlloc.Internals.Windows
import SecmemAlloc.Internals.Miri
import SecmemAlloc.Process.Pages
import SecmemAlloc.Clients.Global
