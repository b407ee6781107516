import SecmemAlloc.SecAlloc.Failure

/-!
# Where a fresh block goes

One condition in integers decides whether a request succeeds and where its block starts,
for both paths of `allocate_zeroed`, also when the alignment is larger than the page or
aligning wraps the address space.  A request that asks for less succeeds as well.
-/

namespace SecmemAlloc

variable {cfg : Cfg}

namespace SecStackSinglePageAlloc

variable {a : SecStackSinglePageAlloc cfg} {layout layout' : Layout cfg} {align align' o : ℕ}

/-- A smaller alignment starts no later. -/
theorem freshAddr_mono (hpow : align.isPowerOfTwo) (hpow' : align'.isPowerOfTwo)
    (hle : align' ≤ align) : a.freshAddr align' ≤ a.freshAddr align := by
  have hdvd : max 8 align' ∣ max 8 align :=
    dvd_of_isPowerOfTwo_of_le (isPowerOfTwo_max hpow') (isPowerOfTwo_max hpow)
      (max_le_max_left 8 hle)
  exact (alignUp_le_iff (by omega) (hdvd.trans (dvd_alignUp _ _))).2 (a.freshAddr_ge align)

theorem Fits.mono (hfit : a.Fits layout) (hsize : layout'.size ≤ layout.size)
    (halign : layout'.align ≤ layout.align) : a.Fits layout' := by
  have haddr : a.freshAddr layout'.align ≤ a.freshAddr layout.align :=
    freshAddr_mono layout.isPowerOfTwo_align layout'.isPowerOfTwo_align halign
  exact (Nat.add_le_add haddr (rounded_mono hsize)).trans hfit

/-- Up to alignment 8 a fresh block starts at the stack offset. -/
theorem Consistent.eq_stackOffset
    (ho : IsLeast {o | a.stackOffset ≤ o ∧ max 8 align ∣ a.page.pagePtr + o} o)
    (hc : a.Consistent) (hle : align ≤ 8) : o = a.stackOffset := by
  have haddr := freshAddr_eq_of_isLeast ho
  rw [hc.freshAddr_of_le hle, stackTop] at haddr
  omega

theorem place_eq_of_isLeast
    (ho : IsLeast {o | a.stackOffset ≤ o ∧ max 8 layout.align ∣ a.page.pagePtr + o} o) :
    a.place layout = { a with
      bytes := a.bytes + rounded layout.size, stackOffset := o + rounded layout.size } := by
  rw [place, freshAddr_eq_of_isLeast ho, Nat.add_sub_cancel_left]

end SecStackSinglePageAlloc

namespace Exact

variable {s : SecMachine cfg} {layout layout' : Layout cfg}

/-- A request succeeds if it is for no bytes or fits. -/
theorem allocate_eq_ok_iff :
    (∃ slice, (allocate layout s).1 = .ok slice) ↔ layout.size = 0 ∨ s.self.Fits layout := by
  simp only [allocate]
  split
  · exact iff_of_true ⟨_, rfl⟩ (Or.inl ‹_›)
  · split
    · exact iff_of_true ⟨_, rfl⟩ (Or.inr ‹_›)
    · exact iff_of_false (by rintro ⟨slice, ⟨⟩⟩) (by rintro (h | h) <;> contradiction)

theorem allocate_mono (hsize : layout'.size ≤ layout.size) (halign : layout'.align ≤ layout.align)
    (h : ∃ slice, (allocate layout s).1 = .ok slice) :
    ∃ slice, (allocate layout' s).1 = .ok slice := by
  rw [allocate_eq_ok_iff] at h ⊢
  rcases h with h0 | hfit
  · exact Or.inl (by omega)
  · exact Or.inr (hfit.mono hsize halign)

end Exact

namespace Heap

open SecStackSinglePageAlloc (allocate allocateZeroed)

variable {h : Heap cfg} {page : Page cfg} {mem : Memory UInt8} {es : List (Event cfg)}

/-- **Placement.**  In every heap reached from `new` a request for bytes succeeds exactly
when the least aligned offset at or above the stack offset leaves room for its rounded size.
The block starts there, and only the two counters change; a failed request changes nothing.
A request for no more bytes and no more alignment than one that succeeds does so too. -/
theorem placement (hrun : Run Step (new page mem) es h)
    {code : Layout cfg → SecCode cfg AllocResult}
    (hcode : code = allocateZeroed cfg ∨ code = allocate cfg) :
    (∀ layout : Layout cfg, layout.size ≠ 0 →
      ∃ o, IsLeast {o | h.alloc.stackOffset ≤ o ∧ max 8 layout.align ∣ page.pagePtr + o} o ∧
        (layout.align ≤ 8 → o = h.alloc.stackOffset) ∧
        ∃ ans s, (code layout).run h.machine = .ok (ans, s) ∧
          (o + rounded layout.size ≤ page.pageSize →
            (∃ slice, ans = .ok slice ∧ slice.asPtr.addr = page.pagePtr + o ∧
              slice.len = rounded layout.size) ∧
            s = { h.machine with self := { h.alloc with
              bytes := h.alloc.bytes + rounded layout.size
              stackOffset := o + rounded layout.size } }) ∧
          (page.pageSize < o + rounded layout.size → ans = .error ⟨⟩ ∧ s = h.machine)) ∧
    ∀ layout layout' : Layout cfg, layout'.size ≤ layout.size → layout'.align ≤ layout.align →
      (∃ slice s, (code layout).run h.machine = .ok (.ok slice, s)) →
        ∃ slice s, (code layout').run h.machine = .ok (.ok slice, s) := by
  have hw := run_wellFormed hrun
  obtain rfl := run_page_eq hrun
  have hc := hw.consistent
  have hexact : ∀ layout, (code layout).run h.machine = .ok (Exact.allocate layout h.machine) := by
    rcases hcode with rfl | rfl
    · exact fun layout => SecStackSinglePageAlloc.allocateZeroed_run hc layout
    · exact fun layout => SecStackSinglePageAlloc.allocate_run hc layout
  constructor
  · intro layout hne
    have ho := h.alloc.isLeast_freshOffset layout.align
    have hfits := SecStackSinglePageAlloc.fits_iff_of_isLeast ho
    have hrun' := hexact layout
    refine ⟨_, ho, hc.eq_stackOffset ho, ?_⟩
    by_cases hfit : h.alloc.Fits layout
    · rw [Exact.allocate_of_fits (s := h.machine) hne hfit] at hrun'
      refine ⟨_, _, hrun', fun _ => ?_, fun hout => absurd (hfits.1 hfit) (not_le.2 hout)⟩
      rw [← SecStackSinglePageAlloc.place_eq_of_isLeast ho]
      exact ⟨⟨_, rfl, SecStackSinglePageAlloc.freshAddr_eq_of_isLeast ho, rfl⟩, rfl⟩
    · rw [Exact.allocate_of_not_fits (s := h.machine) hne hfit] at hrun'
      exact ⟨_, _, hrun', fun hroom => absurd (hfits.2 hroom) hfit, fun _ => ⟨rfl, rfl⟩⟩
  · rintro layout layout' hsize halign ⟨slice, s, hok⟩
    rw [hexact, Except.ok.injEq] at hok
    obtain ⟨slice', hslice'⟩ :=
      Exact.allocate_mono (s := h.machine) hsize halign ⟨slice, by rw [hok]⟩
    refine ⟨slice', (Exact.allocate layout' h.machine).2, ?_⟩
    rw [hexact, ← hslice']

/-- In the sample 5000 bytes do not fit behind the two blocks, and 9 do. -/
theorem placement_sample :
    (allocate sampleCfg fiveThousandBytes).run sampleEnd.machine =
        .ok (.error ⟨⟩, sampleEnd.machine) ∧
      ∃ slice s, (allocate sampleCfg nineBytes).run sampleEnd.machine = .ok (.ok slice, s) ∧
        slice.asPtr.addr = 65568 := by
  obtain ⟨hplace, -⟩ := placement sampleRun (Or.inr rfl)
  constructor
  · obtain ⟨o, -, hlow, ans, s, hok, -, hfail⟩ := hplace fiveThousandBytes (by decide)
    have ho : o = 32 := hlow (by decide)
    obtain ⟨hans, hs⟩ := hfail (by rw [ho]; decide)
    rw [hok, hans, hs]
  · obtain ⟨o, -, hlow, ans, s, hok, hfits, -⟩ := hplace nineBytes (by decide)
    have ho : o = 32 := hlow (by decide)
    obtain ⟨⟨slice, hans, haddr, -⟩, -⟩ := hfits (by rw [ho]; decide)
    rw [hans] at hok
    exact ⟨slice, s, hok, by rw [haddr, ho]; rfl⟩

end Heap

end SecmemAlloc
