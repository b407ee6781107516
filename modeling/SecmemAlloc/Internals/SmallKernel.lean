import SecmemAlloc.Internals.LockedPage

/-!
# A small system

A system that does what is documented about pages: it maps pages above all others, until the
address space is full, and locks them, up to a limit.
-/

namespace SecmemAlloc

/-- A system with pages of 4096 bytes that knows the numbers of the pages it has mapped and
locked, and locks a limited number of them. -/
structure SmallKernel where
  mapped : List ℕ
  locked : List ℕ
  lockLimit : ℕ

namespace SmallKernel

/-- What can be seen of it. -/
def table : PageTable SmallKernel where
  mapped k := {a | ∃ n ∈ k.mapped, 4096 * n = a}
  locked k := {a | ∃ n ∈ k.locked, n ∈ k.mapped ∧ 4096 * n = a}

/-- The number of a page above all others. -/
def fresh (k : SmallKernel) : ℕ := k.mapped.foldr max 0 + 1

/-- A new page of zeros. -/
def addPage (m : Machine SmallKernel) : Machine SmallKernel :=
  { m with
    self := { m.self with mapped := m.self.fresh :: m.self.mapped }
    mem := m.mem.fill (4096 * m.self.fresh) 4096 0 }

/-- Map a page, if the address space has room. -/
def map (cfg : Cfg) : Code SmallKernel (Option Ptr) := fun m =>
  if 4096 * m.self.fresh + 4096 ≤ cfg.usizeMax then
    .ok (some ⟨4096 * m.self.fresh, 4096 * m.self.fresh, 4096 * m.self.fresh + 4096⟩, addPage m)
  else .ok (none, m)

/-- Lock a page, if the limit allows. -/
def lock (p : Ptr) : Code SmallKernel Bool := fun m =>
  if m.self.locked.length < m.self.lockLimit then
    .ok (true, { m with self := { m.self with locked := p.addr / 4096 :: m.self.locked } })
  else .ok (false, m)

/-- Unmap a page, and unlock it. -/
def unmap (p : Ptr) : Code SmallKernel Unit := fun m =>
  .ok ((), { m with self := { m.self with
    mapped := m.self.mapped.filter (· ≠ p.addr / 4096)
    locked := m.self.locked.filter (· ≠ p.addr / 4096) } })

theorem lt_fresh {k : SmallKernel} {n : ℕ} (h : n ∈ k.mapped) : n < k.fresh := by
  obtain ⟨mapped, locked, limit⟩ := k
  simp only [fresh] at *
  induction mapped with
  | nil => simp at h
  | cons x l ih =>
    simp only [List.foldr_cons]
    rcases List.mem_cons.1 h with rfl | h
    · omega
    · have := ih h
      omega

theorem locked_subset (k : SmallKernel) : table.locked k ⊆ table.mapped k := by
  rintro a ⟨n, -, hn, rfl⟩
  exact ⟨n, hn, rfl⟩

theorem unchanged (m : Machine SmallKernel) : table.Unchanged 4096 m m :=
  ⟨rfl, rfl, fun _ _ _ _ => rfl⟩

theorem maps {cfg : Cfg} {m : Machine SmallKernel}
    (hroom : 4096 * m.self.fresh + 4096 ≤ cfg.usizeMax) :
    table.Maps 4096 cfg m ⟨4096 * m.self.fresh, 4096 * m.self.fresh, 4096 * m.self.fresh + 4096⟩
      (addPage m) where
  notMem := by
    rintro ⟨n, hn, heq⟩
    have := lt_fresh hn
    dsimp only at heq
    omega
  addr_ne_zero := by simp [fresh]
  dvd_addr := Nat.dvd_mul_right 4096 _
  stop_le := hroom
  lo_eq := rfl
  hi_eq := rfl
  zero := fun a hlo hhi => Memory.fill_of_mem ⟨hlo, hhi⟩
  mapped_eq := by
    ext a
    simp [table, addPage, eq_comm]
  locked_ge := by
    rintro a ⟨n, hn, hn', rfl⟩
    exact ⟨n, hn, List.mem_cons_of_mem _ hn', rfl⟩
  locked_le := by
    rintro a ⟨n, hn, hn', rfl⟩
    rcases List.mem_cons.1 hn' with rfl | hn'
    · exact Or.inl rfl
    · exact Or.inr ⟨n, hn, hn', rfl⟩
  same := by
    rintro _ ⟨n, hn, rfl⟩ a ha
    have := lt_fresh hn
    have := Set.mem_Ico.1 ha
    exact Memory.fill_of_notMem (by omega)

theorem map_run (cfg : Cfg) (m : Machine SmallKernel) :
    ∃ r m', (map cfg).run m = .ok (r, m') ∧
      match r with
      | none => table.Unchanged 4096 m m'
      | some p => table.Maps 4096 cfg m p m' := by
  by_cases hroom : 4096 * m.self.fresh + 4096 ≤ cfg.usizeMax
  · exact ⟨_, _, if_pos hroom, maps hroom⟩
  · exact ⟨_, _, if_neg hroom, unchanged m⟩

theorem lock_run {p : Ptr} (m : Machine SmallKernel) (hp : p.addr ∈ table.mapped m.self) :
    ∃ r m', (lock p).run m = .ok (r, m') ∧
      match r with
      | false => table.Unchanged 4096 m m'
      | true => table.Locks 4096 m p m' := by
  by_cases hlimit : m.self.locked.length < m.self.lockLimit
  · refine ⟨_, _, if_pos hlimit, rfl, ?_, fun _ _ _ _ => rfl⟩
    obtain ⟨n, hn, heq⟩ := hp
    ext a
    simp [table, ← heq, hn, eq_comm]
  · exact ⟨_, _, if_neg hlimit, unchanged m⟩

theorem unmap_run {p : Ptr} (m : Machine SmallKernel) (hp : p.addr ∈ table.mapped m.self) :
    ∃ m', (unmap p).run m = .ok ((), m') ∧ table.Unmaps 4096 m p m' := by
  obtain ⟨n, hn, heq⟩ := hp
  refine ⟨_, rfl, ?_, ?_, fun _ _ _ _ => rfl⟩ <;> ext a
  · simp only [table, List.mem_filter, Set.mem_ofPred_eq, Set.mem_sdiff, Set.mem_singleton_iff,
      decide_eq_true_eq, ← heq]
    constructor
    · rintro ⟨x, ⟨hx, hne⟩, rfl⟩
      exact ⟨⟨x, hx, rfl⟩, by omega⟩
    · rintro ⟨⟨x, hx, rfl⟩, hne⟩
      exact ⟨x, ⟨hx, by omega⟩, rfl⟩
  · simp only [table, List.mem_filter, Set.mem_ofPred_eq, Set.mem_sdiff, Set.mem_singleton_iff,
      decide_eq_true_eq, ← heq]
    constructor
    · rintro ⟨x, ⟨hx, hne⟩, ⟨hx', -⟩, rfl⟩
      exact ⟨⟨x, hx, hx', rfl⟩, by omega⟩
    · rintro ⟨⟨x, hx, hx', rfl⟩, hne⟩
      have hxn : x ≠ 4096 * n / 4096 := by omega
      exact ⟨x, ⟨hx, hxn⟩, ⟨hx', hxn⟩, rfl⟩

/-! ## A small process -/

/-- A process that has mapped two pages, of which one is locked, and may lock one more. -/
def sampleState : Machine SmallKernel := ⟨⟨[1, 2], [1], 2⟩, fun _ => 5, []⟩

/-- The same process, without another lock to be had. -/
def fullState : Machine SmallKernel := ⟨⟨[1, 2], [1], 1⟩, fun _ => 5, []⟩

/-- The next page of the process. -/
def samplePage : RawPage := ⟨⟨⟨12288, 12288, 16384⟩, Nat.succ_ne_zero _⟩, 4096⟩

end SmallKernel

end SecmemAlloc
