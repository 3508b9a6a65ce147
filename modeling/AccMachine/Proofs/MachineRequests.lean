import AccMachine.Proofs.MachineStep

namespace AccMachine

inductive Request
  | load (image : Array Int)
  | reset
  | step
  | run (budget : Int)
  | fetch
  | execute (w : Int)
  | assign (r : Register) (v : Int)

namespace Machine

def serve (m : Machine) : Request → Except Fault Machine
  | .load image => .ok (m.load image)
  | .reset => .ok m.reset
  | .step => do return (← m.step).2
  | .run budget => do return (← m.run budget).2
  | .fetch => do return (← m.fetch).2
  | .execute w => m.execute (decode (Word.ofInt w))
  | .assign r v => .ok (m.put r (Word.ofInt v))

def serveAll (m : Machine) (requests : List Request) : Except Fault Machine :=
  requests.foldlM serve m

variable {m : Machine}

theorem Follows.size_eq {m' : Machine} (f : m.Follows m') : m'.memory.size = m.memory.size := by
  obtain ⟨events, -, hmem⟩ := f.stores
  simp [hmem]

/-- What holds after every request, if only it held before; and none faults or resizes memory. -/
structure Kept (P : Machine → Prop) : Prop where
  load : ∀ m image, P (Machine.load m image)
  reset : ∀ m, P (Machine.reset m)
  step : ∀ {m}, P m → ∃ trace m', m.step = .ok (trace, m') ∧ P m' ∧
    m'.memory.size = m.memory.size
  fetch : ∀ {m}, P m → ∃ w m', m.fetch = .ok (w, m') ∧ P m' ∧ m'.memory.size = m.memory.size
  execute : ∀ {m}, P m → ∀ w, ∃ m', m.execute (decode w) = .ok m' ∧ P m' ∧
    m'.memory.size = m.memory.size
  put : ∀ {m}, P m → ∀ r v, P (m.put r v)

variable {P : Machine → Prop}

theorem Kept.runFrom_ok (kept : Kept P) (h : P m) (done budget : Nat) :
    ∃ n m', m.runFrom done budget = .ok (n, m') ∧ P m' ∧ m'.memory.size = m.memory.size := by
  induction budget generalizing m done with
  | zero => exact ⟨done, m, rfl, h, rfl⟩
  | succ budget ih =>
    unfold runFrom
    split
    · exact ⟨done, m, rfl, h, rfl⟩
    · obtain ⟨trace, next, hstep, hnext, hsize⟩ := kept.step h
      obtain ⟨n, m', hrun, hm', hsize'⟩ := ih hnext (done + 1)
      refine ⟨n, m', ?_, hm', hsize'.trans hsize⟩
      rw [hstep]
      exact hrun

theorem Kept.serve_ok (kept : Kept P) (h : P m) (r : Request) :
    ∃ m', m.serve r = .ok m' ∧ P m' ∧ m'.memory.size = m.memory.size := by
  cases r with
  | load image => exact ⟨_, rfl, kept.load m image, rfl⟩
  | reset => exact ⟨_, rfl, kept.reset m, rfl⟩
  | step =>
    obtain ⟨trace, m', hstep, hm', hsize⟩ := kept.step h
    exact ⟨m', by simp only [serve, hstep]; rfl, hm', hsize⟩
  | run budget =>
    obtain ⟨n, m', hfrom, hm', hsize⟩ := kept.runFrom_ok h 0 budget.toNat
    have hrun : m.run budget = .ok (n, m') := hfrom
    exact ⟨m', by simp only [serve, hrun]; rfl, hm', hsize⟩
  | fetch =>
    obtain ⟨w, m', hfetch, hm', hsize⟩ := kept.fetch h
    exact ⟨m', by simp only [serve, hfetch]; rfl, hm', hsize⟩
  | execute w => exact kept.execute h (Word.ofInt w)
  | assign r v => exact ⟨_, rfl, kept.put h r _, rfl⟩

theorem foldlM_ok {α : Type} {f : Machine → α → Except Fault Machine}
    (step : ∀ {m}, P m → ∀ x, ∃ m', f m x = .ok m' ∧ P m' ∧ m'.memory.size = m.memory.size)
    (h : P m) (xs : List α) :
    ∃ m', xs.foldlM f m = .ok m' ∧ P m' ∧ m'.memory.size = m.memory.size := by
  induction xs generalizing m with
  | nil => exact ⟨m, rfl, h, rfl⟩
  | cons x xs ih =>
    obtain ⟨next, hstep, hnext, hsize⟩ := step h x
    obtain ⟨m', hall, hm', hsize'⟩ := ih hnext
    refine ⟨m', ?_, hm', hsize'.trans hsize⟩
    rw [List.foldlM_cons, hstep]
    exact hall

theorem Sound.step_ok (h : m.Sound) :
    ∃ trace m', m.step = .ok (trace, m') ∧ m'.Sound ∧ m'.memory.size = m.memory.size := by
  obtain ⟨trace, m', hstep, -, hfollows⟩ := h.step_eq
  exact ⟨trace, m', hstep, hfollows.sound h.readied, by simp [hfollows.size_eq]⟩

theorem sound_kept : Kept Sound where
  load := sound_load
  reset _ := sound_fresh _
  step h := h.step_ok
  fetch h := ⟨_, _, fetch_eq h.code, h.fetched, rfl⟩
  execute h w := by
    obtain ⟨m', hexec, -, hfollows⟩ := h.execute_eq w
    exact ⟨m', hexec, hfollows.sound h, hfollows.size_eq⟩
  put h := h.put

theorem Sound.serveAll_ok (h : m.Sound) (requests : List Request) :
    ∃ m', m.serveAll requests = .ok m' ∧ m'.Sound ∧ m'.memory.size = m.memory.size :=
  foldlM_ok sound_kept.serve_ok h requests

def StandardLines (c : Cache) : Prop :=
  c.lines.size = 8 ∧ ∀ (i : Nat) (l : CacheLine Word), c.lines[i]? = some l →
    l.block.size = 4 ∧ l.dirty = false ∧ ∀ w ∈ l.block, w.toNat ≤ 65535

theorem standardLines_of_shaped {c : Cache} (h : c.Shaped)
    (hg : c.geometry = Geometry.standard) : StandardLines c := by
  have hs := h.lines_size
  simp only [hg, Geometry.standard] at hs
  refine ⟨by omega, fun i l hl => ?_⟩
  have hb := h.block_size i l hl
  simp only [hg, Geometry.standard] at hb
  refine ⟨by omega, h.clean i l hl, fun w _ => ?_⟩
  have := w.isLt
  omega

/--
No request faults. The memory keeps its size, registers and memory hold words, both caches keep
their lines, and a valid line of the data cache has the words of memory, which are zero past its
end.
-/
theorem every_request_is_served (size : Int) (requests : List Request) :
    ∃ m, (fresh size).serveAll requests = .ok m ∧
      m.memory.size = size ∧ m.memory.words.size = size.toNat ∧
      (∀ r, (m.reg r).toNat ≤ 65535) ∧ (∀ a, (m.memory.get a).toNat ≤ 65535) ∧
      StandardLines m.codeCache ∧ StandardLines m.dataCache ∧
      ∀ (i : Nat) (l : CacheLine Word), m.dataCache.lines[i]? = some l → l.valid →
        ∀ j : Nat, j < 4 → l.block[j]? = some (m.memory.get ((l.tag * 8 + i) * 4 + j)) := by
  obtain ⟨m, hall, hsound, hsize⟩ := (sound_fresh size).serveAll_ok requests
  have below : ∀ w : Word, w.toNat ≤ 65535 := by
    intro w
    have := w.isLt
    omega
  refine ⟨m, hall, hsize, ?_, fun r => below _, fun a => below _,
    standardLines_of_shaped hsound.code hsound.codeGeometry,
    standardLines_of_shaped hsound.data hsound.dataGeometry, ?_⟩
  · rw [m.memory.words_size, hsize]
    rfl
  · intro i l hl hv j hj
    have hg := hsound.dataGeometry
    have hblock := hsound.coherent.block_eq hsound.data hl hv (j := j)
      (by rw [hg]; simp only [Geometry.standard]; omega)
    rw [hg] at hblock
    exact hblock

end Machine

end AccMachine
