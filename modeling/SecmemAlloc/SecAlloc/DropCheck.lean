import SecmemAlloc.SecAlloc.Client

/-!
# The check on drop

What `drop` does in any state of the cells and of the memory, reachable or not: the pass over
the page is a sequence of checks, one for each byte, and none of them writes.
-/

namespace SecmemAlloc

variable {cfg : Cfg}

namespace Page

/-- The page is zero if each of its bytes is. -/
theorem zeroed_iff_offset {page : Page cfg} {mem : Memory UInt8} :
    page.Zeroed mem ↔ ∀ offset < page.pageSize, mem (page.pagePtr + offset) = 0 := by
  constructor
  · intro h offset hoffset
    exact h _ (Nat.le_add_right _ _) (by omega)
  · intro h a hlo hhi
    have hbyte := h (a - page.pagePtr) (by omega)
    rwa [Nat.add_sub_cancel' hlo] at hbyte

instance (page : Page cfg) (mem : Memory UInt8) : Decidable (page.Zeroed mem) :=
  decidable_of_iff (∀ offset < page.pageSize, mem (page.pagePtr + offset) = 0)
    zeroed_iff_offset.symm

end Page

namespace SecStackSinglePageAlloc

/-- How the check stops the process. -/
def dropFault (cfg : Cfg) : Fault := if cfg.std then .abort else .assertion

variable {s : SecMachine cfg}

/-- The machine after a read of each of the first `n` bytes of the page. -/
def scanned (s : SecMachine cfg) (n : ℕ) : SecMachine cfg :=
  { s with log := s.log ++ accesses .read s.self.page.asPtr n }

/-- The check of one byte. -/
theorem checkByte_run {offset : ℕ} (hoffset : offset < s.self.page.pageSize) :
    (do
      let byte ← readByte (s.self.page.asPtr.withAddr
        (wrappingAdd cfg s.self.page.asPtr.addr offset))
      if byte ≠ 0 then throw (if cfg.std then .abort else .assertion) else pure () :
      SecCode cfg Unit).run (scanned s offset) =
      if s.mem (s.self.page.pagePtr + offset) = 0 then .ok ((), scanned s (offset + 1))
      else .error (dropFault cfg) := by
  have hend := s.self.page.pageEnd_lt
  have haddr : wrappingAdd cfg s.self.page.pagePtr offset = s.self.page.pagePtr + offset :=
    Nat.mod_eq_of_lt (by omega)
  have hptr : s.self.page.asPtr.withAddr (s.self.page.pagePtr + offset) =
      s.self.page.asPtr.offset offset := rfl
  have hread : (readByte (s.self.page.asPtr.offset offset) : SecCode cfg UInt8).run
      (scanned s offset) = .ok (s.mem (s.self.page.pagePtr + offset), scanned s (offset + 1)) := by
    simp only [scanned, accesses, List.range_succ, List.map_append, ← List.append_assoc]
    rfl
  rw [Page.asPtr_addr, haddr, hptr, Exec.run_bind_ok hread]
  by_cases hbyte : s.mem (s.self.page.pagePtr + offset) = 0
  · rw [if_pos hbyte, if_neg (not_not.2 hbyte)]
    rfl
  · rw [if_neg hbyte, if_pos hbyte]
    rfl

/-- The pass over the page. -/
theorem scan_run : ((List.range s.self.page.pageSize).forM fun offset => do
      let byte ← readByte (s.self.page.asPtr.withAddr
        (wrappingAdd cfg s.self.page.asPtr.addr offset))
      if byte ≠ 0 then throw (if cfg.std then .abort else .assertion) else pure () :
      SecCode cfg Unit).run s =
      if s.self.page.Zeroed s.mem then .ok ((), scanned s s.self.page.pageSize)
      else .error (dropFault cfg) := by
  have hstart : scanned s 0 = s := by simp [scanned]
  have hloop := Exec.run_forM_range (t := scanned s)
    (p := fun offset => s.mem (s.self.page.pagePtr + offset) = 0) fun _ => checkByte_run
  rw [hstart] at hloop
  rw [hloop]
  simp only [Page.zeroed_iff_offset]

/-- What `drop` does in any state. -/
theorem drop_run (s : SecMachine cfg) : (drop cfg).run s =
    if cfg.debugAssertions = true then
      if s.self.bytes = 0 ∧ s.self.page.Zeroed s.mem then
        .ok ((), scanned s s.self.page.pageSize)
      else .error (dropFault cfg)
    else .ok ((), s) := by
  by_cases hdebug : cfg.debugAssertions = true
  swap
  · rw [drop, if_neg hdebug, if_neg hdebug]
    rfl
  rw [drop, if_pos hdebug, if_pos hdebug]
  by_cases hbytes : s.self.bytes = 0
  · -- the check for leaks passes, in either form
    simp only [hbytes, true_and]
    rw [← scan_run]
    by_cases hstd : cfg.std = true
    · rw [if_pos hstd, Exec.run_bind_ok (getBytes_run s), if_neg (not_not.2 hbytes)]
      rfl
    · have hcheck : (debugAssert cfg (do pure ((← getBytes) == 0)) : SecCode cfg Unit).run s =
          .ok ((), s) := debugAssert_run (by
        rw [Exec.run_bind_ok (getBytes_run s), hbytes]
        rfl)
      rw [if_neg hstd, Exec.run_bind_ok hcheck]
      rfl
  · rw [if_neg fun h : _ ∧ _ => hbytes h.1]
    by_cases hstd : cfg.std = true
    · rw [if_pos hstd, dropFault, if_pos hstd, Exec.run_bind_ok (getBytes_run s), if_pos hbytes]
      rfl
    · have hcheck : (debugAssert cfg (do pure ((← getBytes) == 0)) : SecCode cfg Unit).run s =
          .error .assertion := by
        rw [debugAssert, if_pos hdebug]
        have hcond : (do pure ((← getBytes) == 0) : SecCode cfg Bool).run s = .ok (false, s) := by
          rw [Exec.run_bind_ok (getBytes_run s), Exec.run_pure, beq_eq_false_iff_ne.2 hbytes]
        rw [Exec.run_bind_ok hcond]
        rfl
      rw [if_neg hstd, dropFault, if_neg hstd, Exec.run_bind_error hcheck]

/-- An empty page without allocations passes. -/
theorem drop_run_of_zeroed (hbytes : s.self.bytes = 0) (hzero : s.self.page.Zeroed s.mem) :
    ∃ t, (drop cfg).run s = .ok ((), t) := by
  rw [drop_run]
  split
  · rw [if_pos ⟨hbytes, hzero⟩]
    exact ⟨_, rfl⟩
  · exact ⟨_, rfl⟩

/-- What is still allocated stops the process. -/
theorem drop_run_of_leak (hdebug : cfg.debugAssertions = true) (hbytes : s.self.bytes ≠ 0) :
    (drop cfg).run s = .error (dropFault cfg) := by
  rw [drop_run, if_pos hdebug, if_neg fun h => hbytes h.1]

/-- **The check on drop.**  In every state, reachable or not, `drop` returns exactly if the
build has no debug assertions, or no byte is counted and each byte of the page is zero; else it
stops the process.  When it returns nothing has changed, and it has read each byte of the page
once, through a pointer that may be used for it, or nothing at all. -/
theorem drop_check (s : SecMachine cfg) :
    ((∃ t, (drop cfg).run s = .ok ((), t)) ↔
      (cfg.debugAssertions = true → s.self.bytes = 0 ∧ s.self.page.Zeroed s.mem)) ∧
    (∀ f, (drop cfg).run s = .error f → f = if cfg.std then .abort else .assertion) ∧
    ∀ t, (drop cfg).run s = .ok ((), t) → t.self = s.self ∧ t.mem = s.mem ∧
      ∃ made, t.log = s.log ++ made ∧
        (∀ a ∈ made, a.kind = .read ∧ a.InRange) ∧
        ∀ x, (made.map fun a => a.ptr.addr).count x =
          if cfg.debugAssertions = true ∧ s.self.page.pagePtr ≤ x ∧
            x < s.self.page.pagePtr + s.self.page.pageSize then 1 else 0 := by
  rw [drop_run]
  by_cases hdebug : cfg.debugAssertions = true
  swap
  · simp only [if_neg hdebug]
    refine ⟨⟨fun _ h => absurd h hdebug, fun _ => ⟨s, rfl⟩⟩, ?_, ?_⟩
    · rintro f ⟨⟩
    · rintro t ⟨⟩
      exact ⟨rfl, rfl, [], (List.append_nil _).symm, by simp, by simp [hdebug]⟩
  simp only [if_pos hdebug]
  by_cases hclean : s.self.bytes = 0 ∧ s.self.page.Zeroed s.mem
  · rw [if_pos hclean]
    refine ⟨⟨fun _ _ => hclean, fun _ => ⟨_, rfl⟩⟩, ?_, ?_⟩
    · rintro f ⟨⟩
    · rintro t ⟨⟩
      refine ⟨rfl, rfl, _, rfl, fun a ha => ⟨kind_of_mem_accesses ha, ?_⟩, fun x => ?_⟩
      · refine inRange_accesses_iff.2 (Or.inr ?_) a ha
        exact ⟨le_rfl, le_rfl⟩
      · rw [count_addr_accesses]
        simp only [hdebug, true_and]
        rfl
  · rw [if_neg hclean]
    refine ⟨⟨?_, fun h => absurd (h hdebug) hclean⟩, ?_, ?_⟩
    · rintro ⟨t, ⟨⟩⟩
    · rintro f ⟨⟩
      rfl
    · rintro t ⟨⟩

end SecStackSinglePageAlloc

end SecmemAlloc
