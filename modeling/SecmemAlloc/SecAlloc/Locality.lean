import SecmemAlloc.Internals.Mem
import SecmemAlloc.Lib.Interleave
import SecmemAlloc.SecAlloc.Effect

/-!
# An allocator works on its page

The page is the footprint of the allocator and its clients: no call and no client reads or
writes a byte of any other part of the memory.  Each effect is an edit of the page, and the
same edit on every other memory.
-/

namespace SecmemAlloc

variable {cfg : Cfg}

/-- An allocator and the blocks its clients hold, without the memory. -/
structure Tenant (cfg : Cfg) where
  alloc : SecStackSinglePageAlloc cfg
  ledger : Ledger Block

/-- The tenant at work on a memory. -/
def Tenant.heap (t : Tenant cfg) (mem : Memory UInt8) : Heap cfg := ⟨t.alloc, mem, t.ledger⟩

/-- The tenant of a heap. -/
def Heap.tenant (h : Heap cfg) : Tenant cfg := ⟨h.alloc, h.ledger⟩

@[simp] theorem Heap.heap_tenant (h : Heap cfg) : h.tenant.heap h.mem = h := rfl

@[simp] theorem Tenant.tenant_heap (t : Tenant cfg) (mem : Memory UInt8) :
    (t.heap mem).tenant = t := rfl

namespace Heap

variable {h h₁ h₂ : Heap cfg} {i : ℕ} {layout : Layout cfg}

/-! ## Steps and effects are the same -/

/-- Only legal operations have an effect. -/
theorem Effect.legal {e : Event cfg} (heff : Effect h e h₁) : h.Legal e.1 := by
  cases heff with
  | allocateEmpty hi | allocate hi | allocateFailed hi => exact hi
  | deallocate hheld => exact hheld
  | write v hi hoff => exact ⟨hi, hoff⟩
  | vacate hheld hord | move hheld hord | moveFailed hheld hord => exact ⟨hheld, hord⟩
  | trim hheld hle => exact ⟨hheld, hle⟩
  | @extend kind _ _ _ _ hkind hheld hle | @extendFailed kind _ _ _ _ hkind hheld hle =>
    cases kind with
    | grow | growZeroed => exact ⟨hheld, hle⟩
    | shrink | reallocGrow | reallocShrink => cases hkind

/-- The operation determines the effect. -/
theorem Effect.unique {op : Op cfg} {a b : Option AllocResult} (ha : Effect h (op, a) h₁)
    (hb : Effect h (op, b) h₂) : a = b ∧ h₁ = h₂ := by
  -- two different outcomes of one operation have conditions that exclude each other
  cases ha <;> cases hb <;> first | exact ⟨rfl, rfl⟩ | contradiction

/-- Every effect of a well-formed heap is a step. -/
theorem Effect.step (hw : h.WellFormed) {e : Event cfg} (heff : Effect h e h₁) : h.Step e h₁ := by
  obtain ⟨⟨ans, h₂⟩, hexec, heff'⟩ := exec_effect hw heff.legal
  obtain ⟨hans, rfl⟩ := Effect.unique heff heff'
  exact ⟨heff.legal, hans ▸ hexec⟩

theorem Step.unique {e : Event cfg} (hs₁ : h.Step e h₁) (hs₂ : h.Step e h₂) : h₁ = h₂ := by
  have heq := hs₁.2.symm.trans hs₂.2
  simpa using heq

/-! ## Every effect is an edit of the page -/

/-- The invariant does not look at the memory. -/
theorem WellFormed.heap (hw : h.WellFormed) (n : Memory UInt8) : (h.tenant.heap n).WellFormed :=
  ⟨hw.packed, hw.valid, hw.bytes_eq, hw.eight_dvd_stackOffset, hw.stackOffset_le, hw.reset⟩

/-- The bytes of a live block are on the page. -/
theorem WellFormed.mem_range (hw : h.WellFormed) (hi : i ∈ h.ledger.live) {a : ℕ}
    (ha : a ∈ (h.ledger.block i).span) : a ∈ h.alloc.page.range := by
  rw [Block.mem_span] at ha
  obtain ⟨hlo, hstop⟩ := hw.bounds hi (by omega)
  have htop := hw.stackTop_le
  simp only [SecStackSinglePageAlloc.pageEnd] at htop
  exact Page.mem_range.2 ⟨by omega, by omega⟩

/-- The bytes of a fresh block are on the page. -/
theorem fresh_mem_range (hfit : h.alloc.Fits layout) {k : ℕ} (hk : k < rounded layout.size) :
    h.alloc.freshAddr layout.align + k ∈ h.alloc.page.range := by
  have hge := h.alloc.freshAddr_ge layout.align
  simp only [SecStackSinglePageAlloc.Fits, SecStackSinglePageAlloc.pageEnd] at hfit
  simp only [SecStackSinglePageAlloc.stackTop] at hge
  exact Page.mem_range.2 ⟨by omega, by omega⟩

/-- Wiping part of a live block edits the page. -/
theorem WellFormed.fill_local (hw : h.WellFormed) (hi : i ∈ h.ledger.live) {a n : ℕ}
    (hlo : (h.ledger.block i).addr ≤ a)
    (hhi : a + n ≤ (h.ledger.block i).addr + (h.ledger.block i).len) :
    Memory.LocalTo (fun m : Memory UInt8 => m.fill a n 0) h.alloc.page.range :=
  .fill (fun _ hx hx' => hw.mem_range hi ⟨hlo.trans hx, hx'.trans_le hhi⟩) 0

/-- An effect edits the memory on the page only, and edits every other memory in the same
way. -/
theorem Effect.edit (hw : h.WellFormed) {e : Event cfg} (heff : Effect h e h₁) :
    ∃ F, Memory.LocalTo F h.alloc.page.range ∧ h₁.mem = F h.mem ∧
      ∀ n, Effect (h.tenant.heap n) e (h₁.tenant.heap (F n)) := by
  cases heff with
  | allocateEmpty hi h0 => exact ⟨_, .id _, rfl, fun n => .allocateEmpty hi h0⟩
  | allocate hi hne hfit => exact ⟨_, .id _, rfl, fun n => .allocate hi hne hfit⟩
  | allocateFailed hi hne hfit => exact ⟨_, .id _, rfl, fun n => .allocateFailed hi hne hfit⟩
  | deallocate hheld =>
    exact ⟨_, hw.fill_local hheld.live le_rfl le_rfl, rfl, fun n =>
      .deallocate ⟨hheld.live, hheld.addr_eq, hheld.fit⟩⟩
  | write v hi hoff =>
    exact ⟨_, .store (hw.mem_range hi (Block.add_mem_span hoff)) v, rfl, fun n =>
      .write v hi hoff⟩
  | vacate hheld hord h0 =>
    exact ⟨_, hw.fill_local hheld.live le_rfl le_rfl, rfl, fun n =>
      .vacate ⟨hheld.live, hheld.addr_eq, hheld.fit⟩ hord h0⟩
  | @trim i ptr oldLayout newLayout hheld hle hne hin =>
    have hlen := (rounded_mono hle).trans_eq (hw.rounded_eq hheld.live hheld.fit)
    exact ⟨_, hw.fill_local hheld.live (Nat.le_add_right _ _) (by omega), rfl, fun n =>
      .trim ⟨hheld.live, hheld.addr_eq, hheld.fit⟩ hle hne hin⟩
  | extend hkind hheld hle hne hin hroom =>
    exact ⟨_, .id _, rfl, fun n =>
      .extend hkind ⟨hheld.live, hheld.addr_eq, hheld.fit⟩ hle hne hin hroom⟩
  | extendFailed hkind hheld hle hne hin hroom =>
    exact ⟨_, .id _, rfl, fun n =>
      .extendFailed hkind ⟨hheld.live, hheld.addr_eq, hheld.fit⟩ hle hne hin hroom⟩
  | @move kind i ptr oldLayout newLayout hheld hord hne hin hfit =>
    -- the copied bytes lie in the old block and in the fresh one
    have hold : ∀ k < min oldLayout.size newLayout.size,
        (h.ledger.block i).addr + k ∈ h.alloc.page.range := fun k hk =>
      hw.mem_range hheld.live
        (Block.add_mem_span ((hk.trans_le (min_le_left _ _)).trans_le hheld.fit.2))
    have hnew : ∀ k < min oldLayout.size newLayout.size,
        h.alloc.freshAddr newLayout.align + k ∈ h.alloc.page.range := fun k hk =>
      fresh_mem_range hfit ((hk.trans_le (min_le_right _ _)).trans_le (le_rounded _))
    exact ⟨_, (hw.fill_local hheld.live le_rfl le_rfl).comp (.copy hold hnew), rfl, fun n =>
      .move ⟨hheld.live, hheld.addr_eq, hheld.fit⟩ hord hne hin hfit⟩
  | moveFailed hheld hord hne hin hfit =>
    exact ⟨_, .id _, rfl, fun n =>
      .moveFailed ⟨hheld.live, hheld.addr_eq, hheld.fit⟩ hord hne hin hfit⟩

theorem Step.edit (hw : h.WellFormed) {e : Event cfg} (hs : h.Step e h₁) :
    ∃ F, Memory.LocalTo F h.alloc.page.range ∧ h₁.mem = F h.mem ∧
      ∀ n, (h.tenant.heap n).Step e (h₁.tenant.heap (F n)) := by
  obtain ⟨F, hF, hmem, heff⟩ := (Step.effect hw hs).edit hw
  exact ⟨F, hF, hmem, fun n => (heff n).step (hw.heap n)⟩

/-- **Locality.**  In every heap reached from `new`, a step changes no byte outside the page,
and on every memory with the same bytes on the page the same step is possible, with the same
answer, the same cells and blocks after it, and the same bytes on the page. -/
theorem locality {page : Page cfg} {mem : Memory UInt8} {es : List (Event cfg)}
    (hrun : Run Step (new page mem) es h) {e : Event cfg} (hs : h.Step e h₁) :
    (∀ a ∉ page.range, h₁.mem a = h.mem a) ∧
    ∀ n : Memory UInt8, (∀ a ∈ page.range, n a = h.mem a) →
      ∃ n', (h.tenant.heap n).Step e (h₁.tenant.heap n') ∧ (∀ a ∈ page.range, n' a = h₁.mem a) ∧
        ∀ a ∉ page.range, n' a = n a := by
  obtain ⟨F, hF, hmem, hstep⟩ := hs.edit (run_wellFormed hrun)
  rw [run_page_eq hrun] at hF
  rw [hmem]
  refine ⟨fun a ha => hF.frame h.mem ha, fun n hn => ⟨F n, hstep n, fun a ha => ?_, fun a ha => ?_⟩⟩
  · exact hF.congr n h.mem hn ha
  · exact hF.frame n ha

/-- The memory of the sample, with a byte before the page changed. -/
theorem locality_sample : ∃ n', (sampleEnd.tenant.heap (sampleEnd.mem.store 0 9)).Step
    (.write 1 2 5, none) ((sampleEnd.store 1 2 5).tenant.heap n') ∧ n' 0 = 9 := by
  have hs : sampleEnd.Step (.write 1 2 5, none) (sampleEnd.store 1 2 5) := ⟨by decide, rfl⟩
  obtain ⟨n', hstep, -, hout⟩ := (locality sampleRun hs).2 (sampleEnd.mem.store 0 9) (by
    intro a ha
    apply Memory.store_of_ne
    rintro rfl
    exact absurd (Page.mem_range.1 ha).1 (by decide))
  have h0 : (0 : ℕ) ∉ samplePage.range := fun h => absurd (Page.mem_range.1 h).1 (by decide)
  exact ⟨n', hstep, (hout 0 h0).trans Memory.store_self⟩

end Heap

/-! ## Tenants as components -/

namespace Tenant

/-- Tenants share the memory, and work on their pages. -/
def component : Component (Tenant cfg) (Event cfg) UInt8 where
  step x e y := (x.1.heap x.2).Step e (y.1.heap y.2)
  foot t := t.alloc.page.range

/-- The tenant is well formed, on whatever memory. -/
def WellFormed (t : Tenant cfg) : Prop := ∀ mem, (t.heap mem).WellFormed

theorem deterministic : (component : Component (Tenant cfg) (Event cfg) UInt8).Deterministic := by
  intro x e y z hy hz
  have heq : y.1.heap y.2 = z.1.heap z.2 := Heap.Step.unique hy hz
  exact Prod.ext (congrArg Heap.tenant heq) (congrArg Heap.mem heq)

theorem isLocal : (component : Component (Tenant cfg) (Event cfg) UInt8).Local WellFormed := by
  refine Component.Local.of_edits (fun hx hs n => ?_) (fun hx hs => ?_) (fun hx hs => ?_)
  · exact ((Heap.Step.effect (hx _) hs).wellFormed (hx _)).heap n
  · exact congrArg Page.range (Heap.Step.effect (hx _) hs).page_eq
  · exact Heap.Step.edit (hx _) hs

end Tenant

end SecmemAlloc
