import AccMachine.Proofs.CacheLines

namespace AccMachine

namespace Cache

variable {c : Cache}

theorem Shaped.locate_eq (h : c.Shaped) (a : Int) : c.locate a = .ok (c.place a) := by
  have h0 := Geometry.lineOf_nonneg h.positive a
  have h1 := Geometry.lineOf_lt h.positive a
  have hs := h.lines_size
  have hp : position? c.lines.size (c.geometry.lineOf a) = some (c.place a) :=
    position?_of_lt h0 (by omega)
  unfold locate
  rw [if_pos h.positive.divides, hp]

theorem Shaped.wouldHit_eq (h : c.Shaped) (a : Int) :
    c.wouldHit a = .ok (c.held? a).isSome := by
  unfold wouldHit
  rw [h.locate_eq, ← h.holdsAt_eq]
  rfl

theorem Shaped.exists_position (h : c.Shaped) (a : Int) :
    ∃ l, c.lines[c.place a]? = some l ∧
      position? l.block.size (c.geometry.offset a) = some (c.geometry.offset a).toNat := by
  obtain ⟨l, hl⟩ := h.exists_line a
  have h0 := Geometry.offset_nonneg h.positive a
  have ho := h.offset_lt hl a
  exact ⟨l, hl, position?_of_lt h0 (by omega)⟩

theorem Shaped.wordAt_eq (h : c.Shaped) {a : Int} {w : Word} (ha : c.held? a = some w) :
    c.wordAt (c.place a) a = .ok w := by
  obtain ⟨l, hl, hp⟩ := h.exists_position a
  rw [held?_of_line hl] at ha
  split at ha
  next => simp [wordAt, hl, hp, ha]
  next => simp at ha

theorem Shaped.storeAt_eq (h : c.Shaped) (a : Int) (v : Word) :
    c.storeAt (c.place a) a v = .ok (c.stored a v) := by
  obtain ⟨l, hl, hp⟩ := h.exists_position a
  simp [storeAt, hl, hp, Cache.stored]

@[simp] theorem geometry_record (c : Cache) (e : CacheEvent) :
    (c.record e).geometry = c.geometry := rfl

@[simp] theorem lines_record (c : Cache) (e : CacheEvent) : (c.record e).lines = c.lines := rfl

@[simp] theorem history_record (c : Cache) (e : CacheEvent) :
    (c.record e).history = e :: c.history := rfl

@[simp] theorem geometry_stored (c : Cache) (a : Int) (v : Word) :
    (c.stored a v).geometry = c.geometry := rfl

@[simp] theorem history_stored (c : Cache) (a : Int) (v : Word) :
    (c.stored a v).history = c.history := rfl

@[simp] theorem geometry_bringIn (c : Cache) (m : Memory) (p : Nat) (a : Int) :
    (c.bringIn m p a).geometry = c.geometry := by
  unfold bringIn
  split <;> rfl

@[simp] theorem history_bringIn (c : Cache) (m : Memory) (p : Nat) (a : Int) :
    (c.bringIn m p a).history = c.history := by
  unfold bringIn
  split <;> rfl

@[simp] theorem geometry_countRead (c : Cache) (p : Nat) (a : Int) :
    (c.countRead p a).geometry = c.geometry := by
  unfold countRead
  split <;> rfl

@[simp] theorem lines_countRead (c : Cache) (p : Nat) (a : Int) :
    (c.countRead p a).lines = c.lines := by
  unfold countRead
  split <;> rfl

@[simp] theorem history_countRead (c : Cache) (p : Nat) (a : Int) :
    (c.countRead p a).history = c.history := by
  unfold countRead
  split <;> rfl

@[simp] theorem geometry_countWrite (c : Cache) (p : Nat) (a : Int) :
    (c.countWrite p a).geometry = c.geometry := by
  unfold countWrite
  split <;> rfl

@[simp] theorem lines_countWrite (c : Cache) (p : Nat) (a : Int) :
    (c.countWrite p a).lines = c.lines := by
  unfold countWrite
  split <;> rfl

@[simp] theorem history_countWrite (c : Cache) (p : Nat) (a : Int) :
    (c.countWrite p a).history = c.history := by
  unfold countWrite
  split <;> rfl

theorem held?_congr_all {c d : Cache} (hg : d.geometry = c.geometry) (hl : d.lines = c.lines)
    (a : Int) : d.held? a = c.held? a :=
  held?_congr hg (by rw [hl])

@[simp] theorem held?_countRead (c : Cache) (p : Nat) (a b : Int) :
    (c.countRead p a).held? b = c.held? b :=
  held?_congr_all (by simp) (by simp) b

@[simp] theorem held?_countWrite (c : Cache) (p : Nat) (a b : Int) :
    (c.countWrite p a).held? b = c.held? b :=
  held?_congr_all (by simp) (by simp) b

theorem Shaped.countRead (h : c.Shaped) (p : Nat) (a : Int) : (c.countRead p a).Shaped :=
  h.congr (by simp) (by simp)

theorem Shaped.countWrite (h : c.Shaped) (p : Nat) (a : Int) : (c.countWrite p a).Shaped :=
  h.congr (by simp) (by simp)

theorem Shaped.held?_bringIn_congr {d : Cache} (h : c.Shaped) (hg : d.geometry = c.geometry)
    (hl : d.lines = c.lines) (m : Memory) (a b : Int) :
    (d.bringIn m (c.place a) a).held? b = c.heldAfter? m a b := by
  rw [← place_congr hg a, (h.congr hg hl).held?_bringIn]
  unfold heldAfter?
  rw [hg, held?_congr_all hg hl]

def afterRead (c : Cache) (m : Memory) (a : Int) : Cache := c.touchRead m (c.place a) a

@[simp] theorem geometry_afterRead (c : Cache) (m : Memory) (a : Int) :
    (c.afterRead m a).geometry = c.geometry := by
  simp [afterRead, touchRead]

@[simp] theorem history_afterRead (c : Cache) (m : Memory) (a : Int) :
    (c.afterRead m a).history = c.readEvent (c.place a) a :: c.history := by
  simp [afterRead, touchRead]

theorem Shaped.afterRead (h : c.Shaped) (m : Memory) (a : Int) : (c.afterRead m a).Shaped := by
  refine Shaped.bringIn (h.congr ?_ ?_) m (c.place a) a <;> simp

theorem Shaped.held?_afterRead (h : c.Shaped) (m : Memory) (a b : Int) :
    (c.afterRead m a).held? b = c.heldAfter? m a b := by
  refine h.held?_bringIn_congr ?_ ?_ m a b <;> simp

theorem Shaped.held?_of_afterRead (h : c.Shaped) {m : Memory} {a b : Int} {w : Word}
    (hw : (c.afterRead m a).held? b = some w) :
    c.held? b = some w ∨ c.held? b = none ∧ w = m.get b := by
  rw [h.held?_afterRead] at hw
  exact kept_or_fetched hw

/-- A read that can be recorded gives the word that is held, or else the one in memory. -/
theorem Shaped.read_eq (h : c.Shaped) (m : Memory) {a : Int}
    (w : (c.readEvent (c.place a) a).Writable) :
    c.read m a = (.ok ((c.held? a).getD (m.get a)), c.afterRead m a) := by
  have hheld : (c.afterRead m a).held? a = some ((c.held? a).getD (m.get a)) := by
    simp [h.held?_afterRead]
  have hword := (h.afterRead m a).wordAt_eq hheld
  rw [place_congr (geometry_afterRead c m a)] at hword
  unfold Cache.read
  rw [h.locate_eq]
  simp only [if_pos w]
  exact Prod.ext hword rfl

theorem Shaped.read_eq_of_not_writable (h : c.Shaped) (m : Memory) {a : Int}
    (w : ¬(c.readEvent (c.place a) a).Writable) :
    c.read m a = (.error .badValue, c.countRead (c.place a) a) := by
  unfold Cache.read
  rw [h.locate_eq]
  simp only [if_neg w]

def afterWrite (c : Cache) (m : Memory) (a : Int) (v : Word) : Cache :=
  ((c.touchWrite m (c.place a) a).stored a v).record (.writeThrough a v)

@[simp] theorem geometry_touchWrite (c : Cache) (m : Memory) (p : Nat) (a : Int) :
    (c.touchWrite m p a).geometry = c.geometry := by
  simp [touchWrite]

theorem Shaped.touchWrite (h : c.Shaped) (m : Memory) (p : Nat) (a : Int) :
    (c.touchWrite m p a).Shaped := by
  refine Shaped.bringIn (h.congr ?_ ?_) m p a <;> simp

theorem Shaped.held?_touchWrite (h : c.Shaped) (m : Memory) (a b : Int) :
    (c.touchWrite m (c.place a) a).held? b = c.heldAfter? m a b := by
  refine h.held?_bringIn_congr ?_ ?_ m a b <;> simp

@[simp] theorem geometry_afterWrite (c : Cache) (m : Memory) (a : Int) (v : Word) :
    (c.afterWrite m a v).geometry = c.geometry := by
  simp [afterWrite]

@[simp] theorem history_afterWrite (c : Cache) (m : Memory) (a : Int) (v : Word) :
    (c.afterWrite m a v).history =
      .writeThrough a v :: c.writeEvent (c.place a) a :: c.history := by
  simp [afterWrite, touchWrite]

theorem Shaped.afterWrite (h : c.Shaped) (m : Memory) (a : Int) (v : Word) :
    (c.afterWrite m a v).Shaped :=
  ((h.touchWrite m (c.place a) a).stored a v).congr rfl rfl

theorem Shaped.held?_afterWrite (h : c.Shaped) (m : Memory) (a : Int) (v : Word) (b : Int) :
    (c.afterWrite m a v).held? b =
      if b = a then some v else c.heldAfter? m a b := by
  have hself : ((c.touchWrite m (c.place a) a).held? a).isSome := by simp [h.held?_touchWrite]
  have hstored := (h.touchWrite m (c.place a) a).held?_stored hself v b
  rw [h.held?_touchWrite] at hstored
  rw [← hstored]
  exact held?_congr_all rfl rfl b

theorem Shaped.held?_of_afterWrite (h : c.Shaped) {m : Memory} {a b : Int} {v w : Word}
    (hne : b ≠ a) (hw : (c.afterWrite m a v).held? b = some w) :
    c.held? b = some w ∨ c.held? b = none ∧ w = m.get b := by
  rw [h.held?_afterWrite, if_neg hne] at hw
  exact kept_or_fetched hw

/-- A write that can be recorded puts its word into the cache and into memory. -/
theorem Shaped.write_eq (h : c.Shaped) (m : Memory) {a : Int} (v : Word)
    (w : (c.writeEvent (c.place a) a).Writable) :
    c.write m a v = (.ok (), c.afterWrite m a v, m.set a v) := by
  have hstore := (h.touchWrite m (c.place a) a).storeAt_eq a v
  rw [place_congr (geometry_touchWrite c m _ a)] at hstore
  unfold Cache.write
  rw [h.locate_eq]
  simp only [if_pos w, hstore]
  rfl

theorem Shaped.write_eq_of_not_writable (h : c.Shaped) (m : Memory) {a : Int} (v : Word)
    (w : ¬(c.writeEvent (c.place a) a).Writable) :
    c.write m a v = (.error .badValue, c.countWrite (c.place a) a, m) := by
  unfold Cache.write
  rw [h.locate_eq]
  simp only [if_neg w]

theorem readEvent_writable (pos : c.geometry.Positive) {a : Int} (h0 : 0 ≤ a)
    (w : Numeral.Writable a) (p : Nat) : (c.readEvent p a).Writable := by
  have hline := w.of_le (Geometry.lineOf_nonneg pos a) (Geometry.lineOf_le pos h0)
  have hbase := w.of_le (Geometry.blockBase_nonneg pos h0) (Geometry.blockBase_le pos a)
  unfold readEvent CacheEvent.Writable
  split <;> simp [CacheEvent.numbers, w, hline, hbase]

theorem writeEvent_writable (pos : c.geometry.Positive) {a : Int} (h0 : 0 ≤ a)
    (w : Numeral.Writable a) (p : Nat) : (c.writeEvent p a).Writable := by
  have hline := w.of_le (Geometry.lineOf_nonneg pos a) (Geometry.lineOf_le pos h0)
  unfold writeEvent CacheEvent.Writable
  split <;> simp [CacheEvent.numbers, w, hline]

theorem writable_of_writeEvent {a : Int} {p : Nat} (h : (c.writeEvent p a).Writable) :
    Numeral.Writable a := by
  unfold writeEvent CacheEvent.Writable at h
  split at h
  · exact h a (by simp [CacheEvent.numbers])
  · exact h a (by simp [CacheEvent.numbers])

theorem writable_of_readEvent {a : Int} {p : Nat} (h : (c.readEvent p a).Writable) :
    Numeral.Writable a := by
  unfold readEvent CacheEvent.Writable at h
  split at h
  · exact h a (by simp [CacheEvent.numbers])
  · exact h a (by simp [CacheEvent.numbers])

/-- What is held is what memory has. -/
def Mirrors (c : Cache) (m : Memory) : Prop := ∀ a w, c.held? a = some w → w = m.get a

variable {m : Memory}

theorem Mirrors.cold (name : String) (g : Geometry) (m : Memory) :
    (Cache.cold name g).Mirrors m := by
  intro a w hw
  simp at hw

theorem Mirrors.getD_eq (h : c.Mirrors m) (a : Int) : (c.held? a).getD (m.get a) = m.get a := by
  cases hw : c.held? a with
  | none => rfl
  | some w => exact h a w hw

theorem Mirrors.block_eq (h : c.Mirrors m) (shaped : c.Shaped) {i : Nat} {l : CacheLine Word}
    (hl : c.lines[i]? = some l) (hv : l.valid) {j : Nat} (hj : (j : Int) < c.geometry.block) :
    l.block[j]? =
      some (m.get ((l.tag * c.geometry.lines + i) * c.geometry.block + j)) := by
  obtain ⟨hi, -⟩ := Array.getElem?_eq_some_iff.mp hl
  have hs := shaped.lines_size
  obtain ⟨htag, hline, hoff⟩ := Geometry.parts_of_address shaped.positive l.tag
    (i := i) (by omega) (by omega) (o := j) (by omega) hj
  generalize ha : (l.tag * c.geometry.lines + i) * c.geometry.block + j = a at htag hline hoff ⊢
  have hp : c.place a = i := by
    unfold place
    rw [hline]
    rfl
  have hholds : l.holds (c.geometry.tagOf a) := CacheLine.holds_iff.mpr ⟨hv, htag.symm⟩
  have hb := shaped.block_size i l hl
  have hjb : j < l.block.size := by omega
  have hheld : c.held? a = some l.block[j] := by
    rw [held?_of_line (hp ▸ hl), if_pos hholds, hoff]
    exact Array.getElem?_eq_getElem hjb
  rw [← h a _ hheld]
  exact Array.getElem?_eq_getElem hjb

theorem Mirrors.congr {d : Cache} (h : c.Mirrors m) (hd : ∀ a, d.held? a = c.held? a) :
    d.Mirrors m := by
  intro a w hw
  rw [hd] at hw
  exact h a w hw

theorem Mirrors.afterRead (h : c.Mirrors m) (shaped : c.Shaped) (a : Int) :
    (c.afterRead m a).Mirrors m := by
  intro b w hw
  rcases shaped.held?_of_afterRead hw with kept | ⟨-, fetched⟩
  · exact h b w kept
  · exact fetched

/-- A write outside of the memory would be held without being there. -/
theorem Mirrors.afterWrite (h : c.Mirrors m) (shaped : c.Shaped) {a : Int} (hin : m.InRange a)
    (v : Word) : (c.afterWrite m a v).Mirrors (m.set a v) := by
  intro b w hw
  by_cases hb : b = a
  · have hv : v = w := by simpa [shaped.held?_afterWrite, hb] using hw
    simp [hb, hin, hv]
  · rcases shaped.held?_of_afterWrite hb hw with kept | ⟨-, fetched⟩
    · simpa [hb] using h b w kept
    · simpa [hb] using fetched

theorem Mirrors.set (h : c.Mirrors m) {a : Int} {v : Word}
    (same : (c.held? a).isSome → m.get a = v) : c.Mirrors (m.set a v) := by
  intro b w hw
  by_cases hb : b = a
  · subst hb
    have hv : m.get b = v := same (by simp [hw])
    simpa [hv] using h b w hw
  · simpa [hb] using h b w hw

end Cache

end AccMachine
