import Mathlib.Data.Set.Lattice
import Mathlib.Order.CompletePartialOrder
import SecmemAlloc.Lib.ByteMemory
import SecmemAlloc.Lib.Ledger
import SecmemAlloc.Lib.Run

/-!
# Components that share a memory

A component has a state of its own and works on a memory it shares with others.  It is local
if it reads and writes its footprint only.  A pool is a set of components on one memory, with
footprints that do not meet; components join, act and leave in any order.  What a component
has done in a run of the pool is what it would have done alone, and steps of different
components can change places.
-/

namespace SecmemAlloc

variable {σ ℓ β : Type*}

/-- A kind of component: its steps, and the addresses it works on. -/
structure Component (σ ℓ β : Type*) where
  step : σ × Memory β → ℓ → σ × Memory β → Prop
  foot : σ → Set ℕ

namespace Component

/-- The label of a step determines what the step does. -/
def Deterministic (C : Component σ ℓ β) : Prop :=
  ∀ x l y z, C.step x l y → C.step x l z → y = z

/-- Where `I` holds, a component keeps its footprint, writes inside it only, and does the same
on every memory that looks the same inside it. -/
structure Local (C : Component σ ℓ β) (I : σ → Prop) : Prop where
  inv {x y : σ × Memory β} {l : ℓ} : I x.1 → C.step x l y → I y.1
  foot_eq {x y : σ × Memory β} {l : ℓ} : I x.1 → C.step x l y → C.foot y.1 = C.foot x.1
  frame {x y : σ × Memory β} {l : ℓ} : I x.1 → C.step x l y → Set.EqOn y.2 x.2 (C.foot x.1)ᶜ
  congr {x y : σ × Memory β} {l : ℓ} {n : Memory β} : I x.1 → C.step x l y →
    Set.EqOn n x.2 (C.foot x.1) →
    ∃ n', C.step (x.1, n) l (y.1, n') ∧ Set.EqOn n' y.2 (C.foot x.1)

variable {C : Component σ ℓ β} {I : σ → Prop}

/-- A component is local if each of its steps edits the memory inside the footprint. -/
theorem Local.of_edits
    (hinv : ∀ {x y : σ × Memory β} {l : ℓ}, I x.1 → C.step x l y → I y.1)
    (hfoot : ∀ {x y : σ × Memory β} {l : ℓ}, I x.1 → C.step x l y → C.foot y.1 = C.foot x.1)
    (hedit : ∀ {x y : σ × Memory β} {l : ℓ}, I x.1 → C.step x l y →
      ∃ F, Memory.LocalTo F (C.foot x.1) ∧ y.2 = F x.2 ∧ ∀ n, C.step (x.1, n) l (y.1, F n)) :
    C.Local I where
  inv := hinv
  foot_eq := hfoot
  frame := by
    intro x y l hx hstep
    obtain ⟨F, hF, hy, -⟩ := hedit hx hstep
    rw [hy]
    exact hF.frame x.2
  congr := by
    intro x y l n hx hstep hn
    obtain ⟨F, hF, hy, hrepeat⟩ := hedit hx hstep
    rw [hy]
    exact ⟨F n, hrepeat n, hF.congr n x.2 hn⟩

/-- What a local component keeps in a step it keeps in a run. -/
theorem Local.run_frame (hC : C.Local I) {x y : σ × Memory β} {ls : List ℓ}
    (h : Run C.step x ls y) (hx : I x.1) :
    I y.1 ∧ C.foot y.1 = C.foot x.1 ∧ Set.EqOn y.2 x.2 (C.foot x.1)ᶜ := by
  refine h.invariant (I := fun y => I y.1 ∧ C.foot y.1 = C.foot x.1 ∧
    Set.EqOn y.2 x.2 (C.foot x.1)ᶜ) ?_ ⟨hx, rfl, fun _ _ => rfl⟩
  rintro y l z ⟨hy, hfoot, hframe⟩ hstep
  have hlast := hC.frame hy hstep
  rw [hfoot] at hlast
  exact ⟨hC.inv hy hstep, (hC.foot_eq hy hstep).trans hfoot, hlast.trans hframe⟩

/-- A run can be repeated on every memory that looks the same inside the footprint. -/
theorem Local.run_congr (hC : C.Local I) {x y : σ × Memory β} {ls : List ℓ}
    (h : Run C.step x ls y) (hx : I x.1) {n : Memory β} (hn : Set.EqOn n x.2 (C.foot x.1)) :
    ∃ n', Run C.step (x.1, n) ls (y.1, n') ∧ Set.EqOn n' y.2 (C.foot x.1) := by
  induction h generalizing n with
  | nil => exact ⟨n, .nil _, hn⟩
  | snoc hrun hlast ih =>
    obtain ⟨n₁, hrun₁, heq₁⟩ := ih hn
    obtain ⟨hy, hfoot, -⟩ := hC.run_frame hrun hx
    rw [← hfoot] at heq₁ ⊢
    obtain ⟨n₂, hstep₂, heq₂⟩ := hC.congr hy hlast heq₁
    exact ⟨n₂, hrun₁.snoc hstep₂, heq₂⟩

/-- Two runs from memories that look the same inside the footprint, with labels that agree in
the part that determines a step, have the same labels and end alike. -/
theorem Local.run_det (hC : C.Local I) {κ : Type*} {f : ℓ → κ}
    (hdet : ∀ x l l' y z, f l = f l' → C.step x l y → C.step x l' z → l = l' ∧ y = z)
    {s t t' : σ} {m m' n n' : Memory β} {ls ls' : List ℓ} (h : Run C.step (s, m) ls (t, n))
    (h' : Run C.step (s, m') ls' (t', n')) (hs : I s) (hm : Set.EqOn m' m (C.foot s))
    (hls : ls.map f = ls'.map f) : ls = ls' ∧ t = t' ∧ Set.EqOn n' n (C.foot s) := by
  obtain ⟨k, hrun, hk⟩ := hC.run_congr h hs hm
  obtain ⟨rfl, heq⟩ := hrun.det_map hdet h' hls
  obtain ⟨rfl, rfl⟩ := Prod.mk.inj heq
  exact ⟨rfl, rfl, hk⟩

end Component

/-! ## Pools -/

/-- Named components on one memory. -/
structure Pool (σ β : Type*) where
  parts : Ledger σ
  mem : Memory β

/-- What can happen to a pool. -/
inductive PoolEvent (ℓ : Type*)
  | join (i : ℕ)
  | act (i : ℕ) (l : ℓ)
  | leave (i : ℕ)
  /-- Something outside the pool works on the memory. -/
  | other

/-- What component `i` has done since it last joined. -/
def PoolEvent.since (i : ℕ) (es : List (PoolEvent ℓ)) : List ℓ :=
  es.foldl (fun ls e => match e with
    | .join j => if j = i then [] else ls
    | .act j l => if j = i then ls ++ [l] else ls
    | .leave _ | .other => ls) []

namespace PoolEvent

variable {i j : ℕ} {l : ℓ} {es : List (PoolEvent ℓ)}

@[simp] theorem since_join_self : since i (es ++ [.join i]) = [] := by simp [since]

@[simp] theorem since_join_of_ne (h : j ≠ i) : since i (es ++ [.join j]) = since i es := by
  simp [since, h]

@[simp] theorem since_act_self : since i (es ++ [.act i l]) = since i es ++ [l] := by
  simp [since]

@[simp] theorem since_act_of_ne (h : j ≠ i) : since i (es ++ [.act j l]) = since i es := by
  simp [since, h]

@[simp] theorem since_leave : since i (es ++ [.leave j]) = since i es := by simp [since]

@[simp] theorem since_other : since i (es ++ [.other]) = since i es := by simp [since]

end PoolEvent

namespace Pool

/-- Component `e.1` of the pool takes a step labelled `e.2`. -/
def Act (C : Component σ ℓ β) (P : Pool σ β) (e : ℕ × ℓ) (Q : Pool σ β) : Prop :=
  e.1 ∈ P.parts.live ∧ ∃ y, C.step (P.parts.block e.1, P.mem) e.2 y ∧
    Q = ⟨P.parts.insert e.1 y.1, y.2⟩

/-- The footprints of all components but `i` look the same in both memories. -/
def KeepsOthers (C : Component σ ℓ β) (P : Pool σ β) (i : ℕ) (m : Memory β) : Prop :=
  ∀ j ∈ P.parts.live, j ≠ i → Set.EqOn m P.mem (C.foot (P.parts.block j))

/-- The steps of a pool.  A component that joins starts in a state allowed by `Init`, on a
footprint of its own. -/
inductive Step (C : Component σ ℓ β) (Init : σ → Memory β → Prop) (P : Pool σ β) :
    PoolEvent ℓ → Pool σ β → Prop
  | join {i : ℕ} {s : σ} {m : Memory β} (hi : i ∉ P.parts.live) (hinit : Init s m)
      (hnew : ∀ j ∈ P.parts.live, Disjoint (C.foot s) (C.foot (P.parts.block j)))
      (hkeep : P.KeepsOthers C i m) :
      Step C Init P (.join i) ⟨P.parts.insert i s, m⟩
  | act {i : ℕ} {l : ℓ} {Q : Pool σ β} (hact : P.Act C (i, l) Q) : Step C Init P (.act i l) Q
  | leave {i : ℕ} {m : Memory β} (hkeep : P.KeepsOthers C i m) :
      Step C Init P (.leave i) ⟨P.parts.erase i, m⟩
  | other {m : Memory β} (hkeep : ∀ j ∈ P.parts.live, Set.EqOn m P.mem (C.foot (P.parts.block j))) :
      Step C Init P .other ⟨P.parts, m⟩

/-- Every component satisfies `I`, and no two footprints meet. -/
structure Separate (C : Component σ ℓ β) (I : σ → Prop) (P : Pool σ β) : Prop where
  inv : ∀ i ∈ P.parts.live, I (P.parts.block i)
  disjoint : ∀ i ∈ P.parts.live, ∀ j ∈ P.parts.live, i ≠ j →
    Disjoint (C.foot (P.parts.block i)) (C.foot (P.parts.block j))

/-- The pool without components. -/
def Empty (P : Pool σ β) : Prop := P.parts.live = ∅

variable {C : Component σ ℓ β} {I : σ → Prop} {Init : σ → Memory β → Prop} {P Q R : Pool σ β}
  {i : ℕ}

theorem Separate.of_empty (h : P.Empty) : P.Separate C I := by
  have hnone : ∀ i, i ∉ P.parts.live := fun i => h ▸ Finset.notMem_empty i
  exact ⟨fun i hi => absurd hi (hnone i), fun i hi => absurd hi (hnone i)⟩

theorem Separate.erase (h : P.Separate C I) (i : ℕ) (m : Memory β) :
    Separate C I ⟨P.parts.erase i, m⟩ :=
  ⟨fun j hj => h.inv j (Finset.mem_of_mem_erase hj), fun j hj k hk =>
    h.disjoint j (Finset.mem_of_mem_erase hj) k (Finset.mem_of_mem_erase hk)⟩

/-- Recording a component whose footprint meets no other one. -/
theorem Separate.insert (h : P.Separate C I) {s : σ} (hs : I s)
    (hnew : ∀ j ∈ P.parts.live, j ≠ i → Disjoint (C.foot s) (C.foot (P.parts.block j)))
    (m : Memory β) : Separate C I ⟨P.parts.insert i s, m⟩ where
  inv := Ledger.forall_mem_insert (p := fun _ s => I s) hs fun j hj _ => h.inv j hj
  disjoint := by
    refine Ledger.forall_mem_insert (p := fun j t => ∀ k ∈ (P.parts.insert i s).live, j ≠ k →
      Disjoint (C.foot t) (C.foot ((P.parts.insert i s).block k))) ?_ fun j hj hji => ?_
    · exact Ledger.forall_mem_insert (p := fun k t => i ≠ k → Disjoint (C.foot s) (C.foot t))
        (fun hii => absurd rfl hii) fun k hk hki _ => hnew k hk hki
    · exact Ledger.forall_mem_insert
        (p := fun k t => j ≠ k → Disjoint (C.foot (P.parts.block j)) (C.foot t))
        (fun _ => (hnew j hj hji).symm) fun k hk _ hjk => h.disjoint j hj k hk hjk

/-- A step of one component leaves the footprints of the others alone. -/
theorem Separate.act_frame (hC : C.Local I) (h : P.Separate C I) (hi : i ∈ P.parts.live)
    {l : ℓ} {y : σ × Memory β} (hstep : C.step (P.parts.block i, P.mem) l y) :
    P.KeepsOthers C i y.2 := by
  intro j hj hji a ha
  apply hC.frame (h.inv i hi) hstep
  exact Set.disjoint_left.1 (h.disjoint j hj i hi hji) ha

theorem Separate.act (hC : C.Local I) (h : P.Separate C I) {e : ℕ × ℓ} (hact : P.Act C e Q) :
    Q.Separate C I := by
  obtain ⟨hi, y, hstep, rfl⟩ := hact
  have hinv : I (P.parts.block e.1) := h.inv e.1 hi
  refine h.insert (hC.inv hinv hstep) (fun j hj hji => ?_) y.2
  rw [hC.foot_eq hinv hstep]
  exact h.disjoint e.1 hi j hj hji.symm

theorem Separate.step (hC : C.Local I) (hI : ∀ s m, Init s m → I s) (h : P.Separate C I)
    {e : PoolEvent ℓ} (hstep : Step C Init P e Q) : Q.Separate C I := by
  cases hstep with
  | join hi hinit hnew hkeep => exact h.insert (hI _ _ hinit) (fun j hj _ => hnew j hj) _
  | act hact => exact h.act hC hact
  | leave hkeep => exact h.erase _ _
  | other hkeep => exact ⟨h.inv, h.disjoint⟩

/-! ## What a component does alone -/

/-- Component `i` is where a run of its own with the labels `ls` leads. -/
def Solo (C : Component σ ℓ β) (Init : σ → Memory β → Prop) (P : Pool σ β) (i : ℕ)
    (ls : List ℓ) : Prop :=
  ∃ s₀ m₀ m, Init s₀ m₀ ∧ Run C.step (s₀, m₀) ls (P.parts.block i, m) ∧
    Set.EqOn m P.mem (C.foot (P.parts.block i))

/-- What leaves a component and its footprint alone leaves its own run alone. -/
theorem Solo.congr {ls : List ℓ} (h : P.Solo C Init i ls)
    (hblock : Q.parts.block i = P.parts.block i)
    (hmem : Set.EqOn Q.mem P.mem (C.foot (P.parts.block i))) : Q.Solo C Init i ls := by
  obtain ⟨s₀, m₀, m, hinit, hrun, heq⟩ := h
  refine ⟨s₀, m₀, m, hinit, ?_, ?_⟩
  · rwa [hblock]
  · rw [hblock]
    exact heq.trans hmem.symm

/-- A step of the component in the pool is a step of its own run. -/
theorem Solo.act (hC : C.Local I) {ls : List ℓ} (h : P.Solo C Init i ls)
    (hinv : I (P.parts.block i)) {l : ℓ} {y : σ × Memory β}
    (hstep : C.step (P.parts.block i, P.mem) l y) :
    Solo C Init ⟨P.parts.insert i y.1, y.2⟩ i (ls ++ [l]) := by
  obtain ⟨s₀, m₀, m, hinit, hrun, heq⟩ := h
  obtain ⟨m', hstep', heq'⟩ := hC.congr hinv hstep heq
  have hself : (P.parts.insert i y.1).block i = y.1 := Ledger.block_insert_self ..
  refine ⟨s₀, m₀, m', hinit, ?_, ?_⟩ <;> dsimp only <;> rw [hself]
  · exact hrun.snoc hstep'
  · rwa [hC.foot_eq hinv hstep]

/-- **Projection.**  In every run of a pool each component has taken, since it joined, the
steps of a run of its own. -/
theorem run_solo (hC : C.Local I) (hI : ∀ s m, Init s m → I s) {es : List (PoolEvent ℓ)}
    (hrun : Run (Step C Init) P es Q) (hP : P.Empty) :
    Q.Separate C I ∧ ∀ i ∈ Q.parts.live, Q.Solo C Init i (PoolEvent.since i es) := by
  induction hrun with
  | nil => exact ⟨.of_empty hP, fun i hi => absurd hi (hP ▸ Finset.notMem_empty i)⟩
  | @snoc Q _ es _ _ hlast ih =>
    obtain ⟨hsep, hsolo⟩ := ih
    refine ⟨hsep.step hC hI hlast, fun i hi => ?_⟩
    cases hlast with
    | @join j s m hj hinit hnew hkeep =>
      by_cases hij : i = j
      · subst hij
        have hself : (Q.parts.insert i s).block i = s := Ledger.block_insert_self ..
        rw [PoolEvent.since_join_self]
        refine ⟨s, m, m, hinit, ?_, fun _ _ => rfl⟩
        dsimp only
        rw [hself]
        exact .nil _
      · have hi' := (Finset.mem_insert.1 hi).resolve_left hij
        rw [PoolEvent.since_join_of_ne (Ne.symm hij)]
        exact (hsolo i hi').congr (Ledger.block_insert_of_ne hij) (hkeep i hi' hij)
    | @act j l _ hact =>
      obtain ⟨hj, y, hstep, rfl⟩ := hact
      by_cases hij : i = j
      · subst hij
        rw [PoolEvent.since_act_self]
        exact (hsolo i hj).act hC (hsep.inv i hj) hstep
      · have hi' := (Finset.mem_insert.1 hi).resolve_left hij
        rw [PoolEvent.since_act_of_ne (Ne.symm hij)]
        exact (hsolo i hi').congr (Ledger.block_insert_of_ne hij)
          (hsep.act_frame hC hj hstep i hi' hij)
    | @leave j m hkeep =>
      obtain ⟨hij, hi'⟩ := Finset.mem_erase.1 hi
      rw [PoolEvent.since_leave]
      exact (hsolo i hi').congr rfl (hkeep i hi' hij)
    | @other m hkeep =>
      rw [PoolEvent.since_other]
      exact (hsolo i hi).congr rfl (hkeep i hi)

/-! ## Reordering -/

/-- The labels of component `i`, in order. -/
def acts (i : ℕ) (es : List (ℕ × ℓ)) : List ℓ := (es.filter fun e => e.1 = i).map Prod.snd

@[simp] theorem acts_snoc_self {es : List (ℕ × ℓ)} {l : ℓ} :
    acts i (es ++ [(i, l)]) = acts i es ++ [l] := by simp [acts]

@[simp] theorem acts_snoc_of_ne {es : List (ℕ × ℓ)} {e : ℕ × ℓ} (h : e.1 ≠ i) :
    acts i (es ++ [e]) = acts i es := by simp [acts, h]

theorem mem_of_mem_acts {es : List (ℕ × ℓ)} {l : ℓ} : l ∈ acts i es ↔ (i, l) ∈ es := by
  simp [acts]

theorem Act.live_eq {e : ℕ × ℓ} (h : P.Act C e Q) : Q.parts.live = P.parts.live := by
  obtain ⟨hi, y, -, rfl⟩ := h
  exact Finset.insert_eq_of_mem hi

/-- What a run of steps of components does: it changes the states of live components and the
bytes of their footprints, and leads each component where its own labels lead it. -/
structure ActRun (C : Component σ ℓ β) (I : σ → Prop) (P : Pool σ β) (es : List (ℕ × ℓ))
    (Q : Pool σ β) : Prop where
  mem_live : ∀ e ∈ es, e.1 ∈ P.parts.live
  live_eq : Q.parts.live = P.parts.live
  separate : Q.Separate C I
  block_eq : ∀ i ∉ P.parts.live, Q.parts.block i = P.parts.block i
  mem_eq : ∀ a, (∀ i ∈ P.parts.live, a ∉ C.foot (P.parts.block i)) → Q.mem a = P.mem a
  foot_eq : ∀ i ∈ P.parts.live, C.foot (Q.parts.block i) = C.foot (P.parts.block i)
  solo : ∀ i ∈ P.parts.live, ∃ m, Run C.step (P.parts.block i, P.mem) (acts i es)
    (Q.parts.block i, m) ∧ Set.EqOn m Q.mem (C.foot (P.parts.block i))

theorem actRun_of_run (hC : C.Local I) (hP : P.Separate C I) {es : List (ℕ × ℓ)}
    (hrun : Run (Act C) P es Q) : ActRun C I P es Q := by
  induction hrun with
  | nil =>
    exact ⟨fun _ he => absurd he List.not_mem_nil, rfl, hP, fun _ _ => rfl, fun _ _ => rfl,
      fun _ _ => rfl, fun i _ => ⟨P.mem, .nil _, fun _ _ => rfl⟩⟩
  | @snoc Q _ es e _ hlast ih =>
    have hlive := hlast.live_eq
    have hsep := ih.separate.act hC hlast
    obtain ⟨j, l⟩ := e
    obtain ⟨hj, y, hstep, rfl⟩ := hlast
    have hinv : I (Q.parts.block j) := ih.separate.inv j hj
    have hself : (Q.parts.insert j y.1).block j = y.1 := Ledger.block_insert_self ..
    have hj' : j ∈ P.parts.live := ih.live_eq ▸ hj
    refine ⟨fun e he => ?_, hlive.trans ih.live_eq, hsep, fun i hi => ?_, fun a ha => ?_,
      fun i hi => ?_, fun i hi => ?_⟩
    · rcases List.mem_append.1 he with he | he
      · exact ih.mem_live e he
      · rwa [List.mem_singleton.1 he]
    · have hij : i ≠ j := by
        rintro rfl
        exact hi hj'
      exact (Ledger.block_insert_of_ne hij).trans (ih.block_eq i hi)
    · refine (hC.frame hinv hstep fun hmem => ha j hj' ?_).trans (ih.mem_eq a ha)
      rwa [← ih.foot_eq j hj']
    · by_cases hij : i = j
      · subst hij
        dsimp only
        rw [hself]
        exact (hC.foot_eq hinv hstep).trans (ih.foot_eq i hi)
      · dsimp only
        rw [Ledger.block_insert_of_ne hij]
        exact ih.foot_eq i hi
    · obtain ⟨m, hsolo, heq⟩ := ih.solo i hi
      by_cases hij : i = j
      · subst hij
        rw [← ih.foot_eq i hi] at heq ⊢
        obtain ⟨m', hstep', heq'⟩ := hC.congr hinv hstep heq
        refine ⟨m', ?_, heq'⟩
        rw [acts_snoc_self]
        dsimp only
        rw [hself]
        exact hsolo.snoc hstep'
      · have hi' : i ∈ Q.parts.live := ih.live_eq ▸ hi
        have hothers := ih.separate.act_frame hC hj hstep i hi' hij
        rw [ih.foot_eq i hi] at hothers
        refine ⟨m, ?_, heq.trans hothers.symm⟩
        rw [acts_snoc_of_ne (e := (j, l)) (Ne.symm hij)]
        dsimp only
        rwa [Ledger.block_insert_of_ne hij]

/-- The labels of each component determine where steps of components lead. -/
theorem ActRun.eq (hdet : C.Deterministic) {es es' : List (ℕ × ℓ)} (h' : ActRun C I P es' R)
    (h : ActRun C I P es Q) (hsame : ∀ i, acts i es' = acts i es) : R = Q := by
  have hend : ∀ i ∈ P.parts.live, R.parts.block i = Q.parts.block i ∧
      Set.EqOn R.mem Q.mem (C.foot (P.parts.block i)) := by
    intro i hi
    obtain ⟨m, hm, heq⟩ := h.solo i hi
    obtain ⟨m', hm', heq'⟩ := h'.solo i hi
    rw [hsame] at hm'
    obtain ⟨hblock, rfl⟩ := Prod.mk.inj (hm'.det hdet hm)
    exact ⟨hblock, heq'.symm.trans heq⟩
  have hblock : R.parts.block = Q.parts.block := by
    funext i
    by_cases hi : i ∈ P.parts.live
    · exact (hend i hi).1
    · exact (h'.block_eq i hi).trans (h.block_eq i hi).symm
  have hmem : R.mem = Q.mem := by
    funext a
    by_cases ha : ∃ i ∈ P.parts.live, a ∈ C.foot (P.parts.block i)
    · obtain ⟨i, hi, hai⟩ := ha
      exact (hend i hi).2 hai
    · have hout : ∀ i ∈ P.parts.live, a ∉ C.foot (P.parts.block i) :=
        fun i hi hai => ha ⟨i, hi, hai⟩
      exact (h'.mem_eq a hout).trans (h.mem_eq a hout).symm
  have hlive : R.parts.live = Q.parts.live := h'.live_eq.trans h.live_eq.symm
  show Pool.mk ⟨R.parts.live, R.parts.block⟩ R.mem = Q
  rw [hlive, hblock, hmem]

/-- If each component can take its own labels alone, the components can take them in any
order. -/
theorem run_of_solo (hdet : C.Deterministic)
    (hC : C.Local I) (hP : P.Separate C I) {es : List (ℕ × ℓ)}
    (hmem : ∀ e ∈ es, e.1 ∈ P.parts.live)
    (hsolo : ∀ i ∈ P.parts.live, ∃ y, Run C.step (P.parts.block i, P.mem) (acts i es) y) :
    ∃ Q, Run (Act C) P es Q := by
  induction es using List.reverseRecOn with
  | nil => exact ⟨P, .nil P⟩
  | append_singleton es e ih =>
    obtain ⟨j, l⟩ := e
    have hj : j ∈ P.parts.live := hmem (j, l) (by simp)
    obtain ⟨Q, hrun⟩ := ih (fun e he => hmem e (by simp [he])) fun i hi => by
      obtain ⟨y, hy⟩ := hsolo i hi
      by_cases hij : j = i
      · subst hij
        rw [acts_snoc_self] at hy
        obtain ⟨x, hx, -⟩ := Run.snoc_iff.1 hy
        exact ⟨x, hx⟩
      · rw [acts_snoc_of_ne (e := (j, l)) hij] at hy
        exact ⟨y, hy⟩
    have hact := actRun_of_run hC hP hrun
    -- the last label is possible where the component's own run has led it
    obtain ⟨z, hz⟩ := hsolo j hj
    rw [acts_snoc_self] at hz
    obtain ⟨x, hx, hlast⟩ := Run.snoc_iff.1 hz
    obtain ⟨m, hm, heq⟩ := hact.solo j hj
    obtain rfl := hm.det hdet hx
    have hj' : j ∈ Q.parts.live := hact.live_eq ▸ hj
    rw [← hact.foot_eq j hj] at heq
    obtain ⟨n, hn, -⟩ := hC.congr (n := Q.mem) (hact.separate.inv j hj') hlast heq.symm
    exact ⟨_, hrun.snoc ⟨hj', _, hn, rfl⟩⟩

/-- **Reordering.**  Steps of different components can change places: a run of steps leads to
the same pool as every other order that keeps the steps of each component in their order. -/
theorem reorder (hdet : C.Deterministic)
    (hC : C.Local I) (hP : P.Separate C I) {es es' : List (ℕ × ℓ)}
    (hsame : ∀ i, acts i es' = acts i es) (hrun : Run (Act C) P es Q) : Run (Act C) P es' Q := by
  have hact := actRun_of_run hC hP hrun
  have hlive : ∀ e ∈ es', e.1 ∈ P.parts.live := by
    intro e he
    have he' : e.2 ∈ acts e.1 es := hsame e.1 ▸ mem_of_mem_acts.2 he
    exact hact.mem_live _ (mem_of_mem_acts.1 he')
  obtain ⟨R, hrun'⟩ := run_of_solo hdet hC hP hlive fun i hi => by
    obtain ⟨m, hm, -⟩ := hact.solo i hi
    rw [hsame]
    exact ⟨_, hm⟩
  rwa [← (actRun_of_run hC hP hrun').eq hdet hact hsame]

end Pool

end SecmemAlloc
