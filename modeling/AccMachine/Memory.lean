import AccMachine.Fault
import AccMachine.Word

namespace AccMachine

/-- Words at the addresses from zero up to a size; a size that is not positive holds none. -/
structure Memory where
  size : Int
  words : Array Word
  words_size : words.size = size.toNat

namespace Memory

def defaultSize : Int := 4096

def zeros (size : Int) : Memory :=
  ⟨size, Array.replicate size.toNat 0, by simp⟩

def InRange (m : Memory) (a : Int) : Prop := 0 ≤ a ∧ a < m.size

instance (m : Memory) (a : Int) : Decidable (m.InRange a) :=
  inferInstanceAs (Decidable (0 ≤ a ∧ a < m.size))

def get (m : Memory) (a : Int) : Word :=
  if 0 ≤ a then m.words.getD a.toNat 0 else 0

def set (m : Memory) (a : Int) (v : Word) : Memory :=
  if 0 ≤ a then
    { m with
      words := m.words.setIfInBounds a.toNat v
      words_size := by simp [m.words_size] }
  else m

def clear (m : Memory) : Memory := zeros m.size

def load (m : Memory) (image : Array Int) : Memory :=
  { m with
    words := m.words.mapIdx fun i w =>
      match image[i]? with
      | some n => Word.ofInt n
      | none => w
    words_size := by simp [m.words_size] }

def overflowedBy (m : Memory) (image : Array Int) : Bool := m.words.size < image.size

/-- The word that an index names, from the end when it is negative. -/
def index (m : Memory) (i : Int) : Except Fault Word :=
  match position? m.words.size i with
  | some p => .ok (m.words.getD p 0)
  | none => .error .outOfRange

def block (m : Memory) (start size : Int) : Array Word :=
  Array.ofFn fun i : Fin size.toNat => m.get (start + i.val)

def nonzero (m : Memory) : List (Nat × Word) :=
  (m.words.toList.zipIdx.filter (·.1 != 0)).map fun (w, a) => (a, w)

theorem get_of_not_inRange {m : Memory} {a : Int} (h : ¬m.InRange a) : m.get a = 0 := by
  unfold get
  split
  next h0 =>
    have hs := m.words_size
    have hn : m.words.size ≤ a.toNat := by
      have : ¬(0 ≤ a ∧ a < m.size) := h
      omega
    simp [Array.getD_eq_getD_getElem?, hn]
  next => rfl

@[simp] theorem size_set (m : Memory) (a : Int) (v : Word) : (m.set a v).size = m.size := by
  unfold set
  split <;> rfl

@[simp] theorem get_set (m : Memory) (a b : Int) (v : Word) :
    (m.set a v).get b = if b = a ∧ m.InRange a then v else m.get b := by
  have hs := m.words_size
  unfold set get InRange
  by_cases ha : 0 ≤ a <;> by_cases hb : 0 ≤ b
  · simp only [ha, hb, if_true, true_and, Array.getD_eq_getD_getElem?]
    by_cases he : b = a
    · subst he
      by_cases hlt : b < m.size
      · have : b.toNat < m.words.size := by omega
        simp [hlt, this]
      · have : ¬b.toNat < m.words.size := by omega
        simp [hlt, this]
    · have : a.toNat ≠ b.toNat := by omega
      simp [he, this]
  · have : b ≠ a := by omega
    simp [ha, hb, this]
  · have : ¬b = a := by omega
    simp [ha, hb]
  · simp [ha, hb]

@[simp] theorem get_zeros (size a : Int) : (zeros size).get a = 0 := by
  unfold zeros get
  split
  · simp only [Array.getD_eq_getD_getElem?, Array.getElem?_replicate]
    split <;> rfl
  · rfl

theorem get_load (m : Memory) (image : Array Int) (a : Int) (h : m.InRange a) :
    (m.load image).get a =
      match image[a.toNat]? with
      | some n => Word.ofInt n
      | none => m.get a := by
  have hs := m.words_size
  obtain ⟨h0, h1⟩ := h
  have hn : a.toNat < m.words.size := by omega
  simp only [load, get, h0, if_true, Array.getD_eq_getD_getElem?, Array.getElem?_mapIdx,
    Array.getElem?_eq_getElem hn, Option.map_some, Option.getD_some]

end Memory

end AccMachine
