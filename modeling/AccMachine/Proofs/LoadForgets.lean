import AccMachine.Proofs.FlatMemory
import AccMachine.Proofs.MachineRuns

namespace AccMachine

/-- What can be done to a machine from outside: a request, or a write behind its caches. -/
inductive Intervention
  | request (r : Request)
  | setMemory (a v : Int)

namespace Machine

def undergo (m : Machine) : Intervention → Except Fault Machine
  | .request r => m.serve r
  | .setMemory a v => .ok { m with memory := m.memory.set a (Word.ofInt v) }

def undergoAll (m : Machine) (history : List Intervention) : Except Fault Machine :=
  history.foldlM undergo m

variable {m m' : Machine}

theorem shaped_fresh (size : Int) : (fresh size).Shaped := (sound_fresh size).shaped

theorem Ran.shaped {traces : List (List TraceLine)} (ran : m.Ran traces m') (h : m.Shaped) :
    m'.Shaped ∧ m'.memory.size = m.memory.size := by
  induction ran with
  | refl => exact ⟨h, rfl⟩
  | step _ _ hstep ih =>
    obtain ⟨hmid, hsize⟩ := ih
    obtain ⟨_, _, hstep', hshaped, hsize'⟩ := hmid.step_ok
    obtain ⟨-, rfl⟩ := Prod.mk.inj (Except.ok.inj (hstep'.symm.trans hstep))
    exact ⟨hshaped, hsize'.trans hsize⟩

theorem shaped_kept : Kept Shaped where
  load m image := (sound_load m image).shaped
  reset _ := shaped_fresh _
  step h := h.step_ok
  fetch h := ⟨_, _, fetch_eq h.code, ⟨h.code.afterRead _ _, h.data⟩, rfl⟩
  execute h w := by
    obtain ⟨m', hexec, executes⟩ := h.execute_ok w
    exact ⟨m', hexec, executes.shaped, executes.size⟩
  put h _ _ := h.congr rfl rfl

theorem Shaped.undergo_ok (h : m.Shaped) (x : Intervention) :
    ∃ m', m.undergo x = .ok m' ∧ m'.Shaped ∧ m'.memory.size = m.memory.size := by
  cases x with
  | request r => exact shaped_kept.serve_ok h r
  | setMemory a v => exact ⟨_, rfl, h.congr rfl rfl, by simp⟩

theorem Shaped.undergoAll_ok (h : m.Shaped) (history : List Intervention) :
    ∃ m', m.undergoAll history = .ok m' ∧ m'.Shaped ∧ m'.memory.size = m.memory.size :=
  foldlM_ok Shaped.undergo_ok h history

/-- A loaded image lies at the front of a memory of zeros, cut where the memory ends. -/
theorem get_load_fresh (size : Int) (image : Array Int) (a : Int) :
    ((((fresh size).load image).memory.get a).toNat : Int) =
      loadFlat size image (fun _ => 0) a := by
  have hzeros : ∀ x, (((Memory.zeros size).get x).toNat : Int) = 0 := by simp
  exact SharedMemory.get_load_flat hzeros image a

/--
Whatever a machine underwent, loading a program leaves it as loading the program leaves a machine
that has run nothing: with the program in a memory of zeros, cold caches and the registers of the
start. So the steps that follow are the same, too.
-/
theorem load_forgets_history (size : Int) (history : List Intervention) (image : Array Int) :
    ∃ m, (fresh size).undergoAll history = .ok m ∧
      m.load image = (fresh size).load image ∧
      (m.load image).memory.size = size ∧
      (∀ a, (((m.load image).memory.get a).toNat : Int) = loadFlat size image (fun _ => 0) a) ∧
      (m.load image).codeCache = Cache.cold "I-Cache" Geometry.standard ∧
      (m.load image).dataCache = Cache.cold "D-Cache" Geometry.standard ∧
      (∀ r, (m.load image).reg r = if r = .sp then 4095 else 0) ∧
      (m.load image).halted = false ∧ (m.load image).cycle = 0 ∧ (m.load image).trace = [] ∧
      ∀ k, (m.load image).steps k = ((fresh size).load image).steps k := by
  obtain ⟨m, hall, -, hsize⟩ := (shaped_fresh size).undergoAll_ok history
  have heq : m.load image = (fresh size).load image := load_eq_of_size hsize image
  have hregs : ∀ r, ((fresh size).load image).reg r = if r = .sp then 4095 else 0 := by
    intro r
    cases r <;> rfl
  refine ⟨m, hall, heq, ?_⟩
  rw [heq]
  exact ⟨rfl, get_load_fresh size image, rfl, rfl, hregs, rfl, rfl, rfl, fun _ => rfl⟩

end Machine

end AccMachine
